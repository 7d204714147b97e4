-- SUMMARY: Whether a commit is a snapshot: what its closures lock when they are executed, and what has gone by then.
import Mathlib.Data.List.Count
import Mathlib.Data.List.ReduceOption
import ZenRemote.Client.Captured

/-!
# A commit as a snapshot

Between a commit and the execution of its group the update thread goes on. Most
closures carry copies of what they need; three of them carry weak pointers, and lock
them when they are executed. The group does what it would have done at once, exactly
when nothing that it locks to some effect has been destroyed in the meantime.
-/

namespace ZenRemote.Client

/-- Two lookups, of which the second finds no more, find the same if they find as many. -/
theorem eq_of_length_filterMap_eq {α β : Type} {f g : α → Option β} {l : List α}
    (hsub : ∀ x ∈ l, ∀ y, g x = some y → f x = some y)
    (hlength : (l.filterMap f).length = (l.filterMap g).length) : ∀ x ∈ l, f x = g x := by
  induction l with
  | nil => exact nofun
  | cons x l ih =>
    have hsub' : ∀ x ∈ l, ∀ y, g x = some y → f x = some y :=
      fun x hx => hsub x (List.mem_cons_of_mem _ hx)
    have hle : (l.filterMap g).length ≤ (l.filterMap f).length := by
      rw [List.length_filterMap_eq_countP, List.length_filterMap_eq_countP]
      apply List.countP_mono_left
      intro x hx hg
      obtain ⟨y, hy⟩ := Option.isSome_iff_exists.mp hg
      rw [hsub' x hx y hy]
      rfl
    rw [List.filterMap_cons, List.filterMap_cons] at hlength
    cases hg : g x with
    | some y =>
      have hf := hsub x List.mem_cons_self y hg
      rw [hf, hg] at hlength
      exact List.forall_mem_cons.mpr ⟨hf.trans hg.symm, ih hsub' (Nat.succ_inj.mp hlength)⟩
    | none =>
      rw [hg] at hlength
      cases hf : f x with
      | none =>
        rw [hf] at hlength
        exact List.forall_mem_cons.mpr ⟨hf.trans hg.symm, ih hsub' hlength⟩
      | some y =>
        rw [hf] at hlength
        have hlt : (l.filterMap f).length < (l.filterMap g).length := Nat.lt_of_succ_le hlength.le
        exact absurd hlt (Nat.not_lt.mpr hle)

-- ---------------------------------------------------------------------------
-- Programs
-- ---------------------------------------------------------------------------

def GlCall.isAttachShader : GlCall → Bool
  | .attachShader _ _ => true
  | _ => false

namespace GlProgram.Command

variable {gl : Driver} {lockShader lockShader' : WeakPtr → Option GLuint} {t : Thread RenderingState}
  {glShaders : List WeakPtr}

theorem countP_map_attachShader (programId : GLuint) (shaders : List GLuint) :
    (shaders.map (GlCall.attachShader programId)).countP GlCall.isAttachShader = shaders.length := by
  rw [List.countP_map, List.countP_eq_length]
  exact fun _ _ => rfl

/-- Linking attaches the shaders that it has locked. -/
theorem countP_execute_link (hid : t.rendering.programId = 0) :
    (execute gl lockShader t (.link glShaders)).calls.countP GlCall.isAttachShader =
      t.calls.countP GlCall.isAttachShader + (glShaders.filterMap lockShader).length := by
  unfold execute
  dsimp only
  rw [if_neg (not_not_intro hid)]
  split
  · simp only [Thread.calls_issue, Thread.calls_issueAll, List.countP_append, countP_map_attachShader]
    rfl
  · simp only [Thread.calls_assign, Thread.calls_issue, Thread.calls_issueAll, List.countP_append,
      countP_map_attachShader]
    rfl

theorem execute_link_eq_iff (hsub : ∀ p ∈ glShaders, ∀ x, lockShader' p = some x → lockShader p = some x) :
    execute gl lockShader t (.link glShaders) = execute gl lockShader' t (.link glShaders) ↔
      (t.rendering.programId = 0 → ∀ p ∈ glShaders, lockShader p = lockShader' p) := by
  constructor
  · intro heq hid
    apply eq_of_length_filterMap_eq hsub
    have hcount := congrArg (fun t => t.calls.countP GlCall.isAttachShader) heq
    rw [countP_execute_link hid, countP_execute_link hid] at hcount
    exact Nat.add_left_cancel hcount
  · intro hsame
    cases Decidable.em (t.rendering.programId = 0) with
    | inl hid =>
      have hshaders : glShaders.filterMap lockShader = glShaders.filterMap lockShader' :=
        List.filterMap_congr (hsame hid)
      unfold execute
      dsimp only
      rw [hshaders]
    | inr hid =>
      unfold execute
      dsimp only
      rw [if_pos hid, if_pos hid]

end GlProgram.Command

-- ---------------------------------------------------------------------------
-- Vertex arrays
-- ---------------------------------------------------------------------------

def GlCall.isVertexAttribPointer : GlCall → Bool
  | .vertexAttribPointer _ _ _ _ _ _ => true
  | _ => false

/-- The attribute is replayed together with its buffer. -/
def VertexAttrib.replaysPointer (a : VertexAttrib) : Bool := a.damaged && a.filled

namespace GlVertexArray

variable {lockBuffer lockBuffer' : WeakPtr → Option (UInt32 × GLuint)}

/-- The buffer that a replay locks for an attribute. -/
def lockFor (lockBuffer : WeakPtr → Option (UInt32 × GLuint)) (a : VertexAttrib) :
    Option (UInt32 × GLuint) :=
  if a.replaysPointer then lockBuffer a.glBuffer else none

theorem attributeCalls_congr (index : UInt32) {a : VertexAttrib}
    (hsame : lockFor lockBuffer a = lockFor lockBuffer' a) :
    attributeCalls lockBuffer index a = attributeCalls lockBuffer' index a := by
  unfold attributeCalls
  cases hdamaged : a.damaged with
  | false => rfl
  | true =>
    cases hfilled : a.filled with
    | false => rfl
    | true =>
      have hpointer : a.replaysPointer = true := by
        rw [VertexAttrib.replaysPointer, hdamaged, hfilled]
        rfl
      rw [lockFor, lockFor, if_pos hpointer, if_pos hpointer] at hsame
      rw [hsame]

theorem countP_attributeCalls (index : UInt32) (a : VertexAttrib) :
    (attributeCalls lockBuffer index a).countP GlCall.isVertexAttribPointer =
      (lockFor lockBuffer a).toList.length := by
  unfold attributeCalls lockFor VertexAttrib.replaysPointer
  cases a.damaged with
  | false => rfl
  | true =>
    cases a.filled with
    | false =>
      cases a.enabled with
      | _ => rfl
    | true =>
      cases lockBuffer a.glBuffer with
      | _ =>
        cases a.enabled with
        | _ => rfl

theorem countP_flatMap_attributeCalls (entries : List (Σ _ : UInt32, VertexAttrib)) :
    (entries.flatMap fun e => attributeCalls lockBuffer e.1 e.2).countP GlCall.isVertexAttribPointer =
      (entries.filterMap fun e => lockFor lockBuffer e.2).length := by
  induction entries with
  | nil => rfl
  | cons e entries ih =>
    rw [List.flatMap_cons, List.countP_append, countP_attributeCalls, ih, List.filterMap_cons]
    cases lockFor lockBuffer e.2 with
    | none => exact Nat.zero_add _
    | some _ => exact Nat.add_comm _ _

namespace Command

variable {gl : Driver} {t : Thread RenderingState} {attributes : AList fun _ : UInt32 => VertexAttrib}

/-- The calls of a replay around those for the attributes. -/
theorem calls_execute_replay (gl : Driver) (t : Thread RenderingState)
    (attributes : AList fun _ : UInt32 => VertexAttrib) : ∃ before after, ∀ lockBuffer,
      (execute gl lockBuffer t (.replay attributes)).calls =
        before ++ (attributes.entries.flatMap fun e => attributeCalls lockBuffer e.1 e.2) ++ after := by
  unfold execute
  dsimp only
  split
  · exact ⟨_, _, fun _ => rfl⟩
  · exact ⟨_, _, fun _ => rfl⟩

theorem execute_replay_eq_iff
    (hsub : ∀ p ∈ attributes.entries.map fun e => e.2.glBuffer, ∀ x,
      lockBuffer' p = some x → lockBuffer p = some x) :
    execute gl lockBuffer t (.replay attributes) = execute gl lockBuffer' t (.replay attributes) ↔
      ∀ e ∈ attributes.entries, lockFor lockBuffer e.2 = lockFor lockBuffer' e.2 := by
  constructor
  · intro heq
    apply eq_of_length_filterMap_eq
    · intro e he x hx
      unfold lockFor at hx ⊢
      split at hx
      · rename_i hpointer
        rw [if_pos hpointer]
        exact hsub _ (List.mem_map_of_mem he) x hx
      · cases hx
    · have hcount := congrArg (fun t => t.calls.countP GlCall.isVertexAttribPointer) heq
      obtain ⟨before, after, hcalls⟩ := calls_execute_replay gl t attributes
      simp only [hcalls, List.countP_append, countP_flatMap_attributeCalls] at hcount
      exact Nat.add_left_cancel (Nat.add_right_cancel hcount)
  · intro hsame
    have hcalls : (attributes.entries.flatMap fun e => attributeCalls lockBuffer e.1 e.2) =
        attributes.entries.flatMap fun e => attributeCalls lockBuffer' e.1 e.2 := by
      apply List.flatMap_congr
      exact fun e he => attributeCalls_congr e.1 (hsame e he)
    unfold execute
    dsimp only
    rw [hcalls]

end Command

end GlVertexArray

-- ---------------------------------------------------------------------------
-- Techniques
-- ---------------------------------------------------------------------------

/-- Setting the variable asks the driver for its location, or writes an entry. -/
def UniformVariable.isSet (u : UniformVariable) : Bool := u.name ≠ [] || 0 ≤ u.location.toInt32

namespace GlBaseTechnique.Command

variable {gl : Driver} {lockProgram lockProgram' : WeakPtr → Option GLuint}
  {t : Thread RenderingState} {us : List UniformVariable} {programId : GLuint}

/-- How much has been done. -/
def effort (t : Thread RenderingState) : Nat := t.calls.length + t.writes.length

theorem setUniform_of_not_isSet {u : UniformVariable} (hu : ¬ u.isSet) :
    setUniform gl programId t u = t := by
  have hname : u.name = [] := by
    by_contra hname
    exact hu (by simp [UniformVariable.isSet, hname])
  have hlocation : u.location.toInt32 < 0 := by
    by_contra hlocation
    exact hu (by simp [UniformVariable.isSet, Int32.not_lt.mp hlocation])
  unfold setUniform
  dsimp only
  rw [if_pos hname, if_pos hname, if_pos hlocation]

theorem effort_setUniform (gl : Driver) (programId : GLuint) (t : Thread RenderingState)
    (u : UniformVariable) :
    effort t + (if u.isSet then 1 else 0) ≤ effort (setUniform gl programId t u) := by
  cases Decidable.em (u.isSet = true) with
  | inr hu =>
    rw [setUniform_of_not_isSet hu, if_neg hu]
    exact Nat.le_refl _
  | inl hu =>
    rw [if_pos hu]
    unfold setUniform effort
    dsimp only
    split
    · rename_i hname
      split
      · rename_i hlocation
        have hneg : ¬ 0 ≤ u.location.toInt32 := Int32.not_le.mpr hlocation
        simp [UniformVariable.isSet, hname, hneg] at hu
      · simp only [Thread.assign, List.length_append, List.length_singleton]
        omega
    · split
      · simp only [Thread.issue, List.length_append, List.length_singleton]
        omega
      · simp only [Thread.assign, Thread.issue, List.length_append, List.length_singleton]
        omega

theorem effort_foldl_setUniform (gl : Driver) (programId : GLuint) (us : List UniformVariable)
    (t : Thread RenderingState) :
    effort t + us.countP UniformVariable.isSet ≤ effort (us.foldl (setUniform gl programId) t) := by
  induction us generalizing t with
  | nil => exact Nat.le_refl _
  | cons u us ih =>
    have hu := effort_setUniform gl programId t u
    have hus := ih (setUniform gl programId t u)
    rw [List.countP_cons, List.foldl_cons]
    omega

theorem foldl_setUniform_eq_iff :
    us.foldl (setUniform gl programId) t = t ↔ us.any UniformVariable.isSet = false := by
  constructor
  · intro heq
    have hle := effort_foldl_setUniform gl programId us t
    rw [heq] at hle
    have hzero : us.countP UniformVariable.isSet = 0 := by omega
    exact List.any_eq_false.mpr (List.countP_eq_zero.mp hzero)
  · intro hnone
    have hall := List.any_eq_false.mp hnone
    clear hnone
    induction us with
    | nil => rfl
    | cons u us ih =>
      rw [List.foldl_cons, setUniform_of_not_isSet (hall u List.mem_cons_self)]
      exact ih fun u hu => hall u (List.mem_cons_of_mem _ hu)

theorem execute_uniforms_eq_iff
    (hsub : ∀ x, lockProgram' t.rendering.program = some x → lockProgram t.rendering.program = some x) :
    execute gl lockProgram t (.uniforms us) = execute gl lockProgram' t (.uniforms us) ↔
      ∀ programId, lockProgram t.rendering.program = some programId → programId ≠ 0 →
        us.any UniformVariable.isSet → lockProgram' t.rendering.program = some programId := by
  unfold execute
  dsimp only
  cases hlock : lockProgram t.rendering.program with
  | none =>
    cases hlock' : lockProgram' t.rendering.program with
    | none => exact ⟨fun _ => nofun, fun _ => rfl⟩
    | some x => cases hlock.symm.trans (hsub x hlock')
  | some programId =>
    cases hlock' : lockProgram' t.rendering.program with
    | some x =>
      obtain rfl := Option.some.inj (hlock.symm.trans (hsub x hlock'))
      exact ⟨fun _ _ hid _ _ => hid, fun _ => rfl⟩
    | none =>
      dsimp only
      split
      · rename_i hzero
        refine ⟨fun _ x hx hne => ?_, fun _ => rfl⟩
        exact absurd hzero (Option.some.inj hx ▸ hne)
      · rename_i hne
        rw [foldl_setUniform_eq_iff]
        constructor
        · intro hnone _ _ _ hany
          rw [hnone] at hany
          cases hany
        · intro h
          cases hany : us.any UniformVariable.isSet with
          | false => rfl
          | true => cases h programId rfl hne hany

end GlBaseTechnique.Command

-- ---------------------------------------------------------------------------
-- Closures
-- ---------------------------------------------------------------------------

/-- It has not been destroyed in between. -/
def Survives (h h' : Heap Object) (k : Kind) (a : Nat) : Prop :=
  (h.get k a).isSome → (h'.get k a).isSome

instance (h h' : Heap Object) (k : Kind) (a : Nat) : Decidable (Survives h h' k a) :=
  inferInstanceAs (Decidable (_ → _))

namespace Rendering

variable {R : Rendering} {h h' : Heap Object} {k : Kind} {a : Nat}

theorem onState_eq_iff {f g : Thread (RenderingState k) → Thread (RenderingState k)} :
    R.onState k a f = R.onState k a g ↔
      f { calls := R.calls, rendering := R.states k a } =
        g { calls := R.calls, rendering := R.states k a } := by
  constructor
  · intro heq
    have hcalls := congrArg Rendering.calls heq
    have hstates : (R.onState k a f).states k a = (R.onState k a g).states k a := by rw [heq]
    have hwrites := List.append_cancel_left (congrArg Rendering.writes heq)
    rw [states_onState_self, states_onState_self] at hstates
    have hinjective : Function.Injective fun r : RenderingState k =>
        (⟨k, a, r⟩ : Σ k, Nat × RenderingState k) := by
      intro r r' hr
      cases hr
      rfl
    have hwrites' := List.map_injective_iff.mpr hinjective hwrites
    dsimp only [onState] at hcalls
    generalize f { calls := R.calls, rendering := R.states k a } = t at *
    generalize g { calls := R.calls, rendering := R.states k a } = t' at *
    cases t
    cases t'
    cases hcalls
    cases hstates
    cases hwrites'
    rfl
  · intro heq
    unfold onState
    rw [heq]

variable {τ : Type} {f : RenderingState k → τ} {p : WeakPtr}

theorem lock_eq_some {x : τ} :
    R.lock h k f p = some x ↔ ∃ b, p = some b ∧ (h.get k b).isSome ∧ f (R.states k b) = x := by
  cases p with
  | none => simp [lock]
  | some b =>
    cases hb : h.get k b with
    | none => simp [lock, hb]
    | some _ => simp [lock, hb]

variable (hlater : h.Later h')

include hlater

/-- What is alive later has been alive before. -/
theorem lock_of_later (hp : Below h.next [p]) {x : τ} (hx : R.lock h' k f p = some x) :
    R.lock h k f p = some x := by
  obtain ⟨b, rfl, halive, hx⟩ := lock_eq_some.mp hx
  refine lock_eq_some.mpr ⟨b, rfl, ?_, hx⟩
  by_contra hgone
  have hlt : b < h.next := hp b List.mem_cons_self
  rw [Option.not_isSome_iff_eq_none] at hgone
  rw [hlater.gone k b hlt hgone] at halive
  cases halive

theorem lock_eq_iff (hp : Below h.next [p]) :
    R.lock h k f p = R.lock h' k f p ↔ ∀ b, p = some b → Survives h h' k b := by
  constructor
  · rintro heq b rfl halive
    have hlock : R.lock h k f (some b) = some (f (R.states k b)) :=
      lock_eq_some.mpr ⟨b, rfl, halive, rfl⟩
    rw [heq] at hlock
    obtain ⟨b', ⟨⟩, halive', -⟩ := lock_eq_some.mp hlock
    exact halive'
  · intro hkept
    cases hlock' : R.lock h' k f p with
    | some x => exact lock_of_later hlater hp hlock'
    | none =>
      rw [Option.eq_none_iff_forall_ne_some]
      intro x hx
      obtain ⟨b, hb, halive, -⟩ := lock_eq_some.mp hx
      have hsome : R.lock h' k f p = some (f (R.states k b)) :=
        lock_eq_some.mpr ⟨b, hb, hkept b hb halive, rfl⟩
      cases hlock'.symm.trans hsome

end Rendering

namespace Closure

/-- The resources that a closure locks to some effect: a program is linked once, an
attribute is replayed when it has changed and has a buffer, and uniform variables are
set in a program that has been linked. -/
def locks (R : Rendering) : Closure → List (Kind × Nat)
  | ⟨.glPrograms, a, GlProgram.Command.link shaders⟩ =>
    if GlProgram.RenderingState.programId (R.states .glPrograms a) = 0 then
      shaders.reduceOption.map fun b => (.glShaders, b)
    else []
  | ⟨.glVertexArrays, _, GlVertexArray.Command.replay attributes⟩ =>
    attributes.entries.filterMap fun e =>
      if e.2.replaysPointer then e.2.glBuffer.map fun b => (.glBuffers, b) else none
  | ⟨.glBaseTechniques, a, GlBaseTechnique.Command.uniforms us⟩ =>
    match GlBaseTechnique.RenderingState.program (R.states .glBaseTechniques a) with
    | none => []
    | some b =>
      if GlProgram.RenderingState.programId (R.states .glPrograms b) ≠ 0 ∧
        us.any UniformVariable.isSet then [(.glPrograms, b)] else []
  | _ => []

variable {gl : Driver} {h h' : Heap Object} {R : Rendering}

variable (hlater : h.Later h')

include hlater

theorem execute_link_eq_iff {a : Nat} {shaders : List WeakPtr} (hshaders : Below h.next shaders) :
    Closure.execute gl h R ⟨.glPrograms, a, GlProgram.Command.link shaders⟩ =
        Closure.execute gl h' R ⟨.glPrograms, a, GlProgram.Command.link shaders⟩ ↔
      ∀ u ∈ locks R ⟨.glPrograms, a, GlProgram.Command.link shaders⟩, Survives h h' u.1 u.2 := by
  have hbelow : ∀ p ∈ shaders, Below h.next [p] :=
    fun p hp b hb => hshaders b (List.mem_singleton.mp hb ▸ hp)
  rw [execute_eq_onState, execute_eq_onState, Rendering.onState_eq_iff]
  refine (GlProgram.Command.execute_link_eq_iff fun p hp x hx =>
    Rendering.lock_of_later hlater (hbelow p hp) hx).trans ?_
  dsimp only [locks]
  split
  · rename_i hid
    rw [forall_prop_of_true hid]
    constructor
    · intro hsame u hu
      obtain ⟨b, hb, rfl⟩ := List.mem_map.mp hu
      have hmem := List.reduceOption_mem_iff.mp hb
      exact (Rendering.lock_eq_iff hlater (hbelow _ hmem)).mp (hsame _ hmem) b rfl
    · intro hkept p hp
      refine (Rendering.lock_eq_iff hlater (hbelow p hp)).mpr ?_
      rintro b rfl
      exact hkept (.glShaders, b) (List.mem_map_of_mem (List.reduceOption_mem_iff.mpr hp))
  · rename_i hid
    exact ⟨fun _ => nofun, fun _ hid' => absurd hid' hid⟩

theorem execute_replay_eq_iff {a : Nat} {attributes : AList fun _ : UInt32 => VertexAttrib}
    (hbuffers : Below h.next (attributes.entries.map fun e => e.2.glBuffer)) :
    Closure.execute gl h R ⟨.glVertexArrays, a, GlVertexArray.Command.replay attributes⟩ =
        Closure.execute gl h' R ⟨.glVertexArrays, a, GlVertexArray.Command.replay attributes⟩ ↔
      ∀ u ∈ locks R ⟨.glVertexArrays, a, GlVertexArray.Command.replay attributes⟩,
        Survives h h' u.1 u.2 := by
  have hbelow : ∀ p ∈ attributes.entries.map fun e => e.2.glBuffer, Below h.next [p] :=
    fun p hp b hb => hbuffers b (List.mem_singleton.mp hb ▸ hp)
  rw [execute_eq_onState, execute_eq_onState, Rendering.onState_eq_iff]
  refine (GlVertexArray.Command.execute_replay_eq_iff fun p hp x hx =>
    Rendering.lock_of_later hlater (hbelow p hp) hx).trans ?_
  have hentry : ∀ e ∈ attributes.entries, GlVertexArray.lockFor (R.lock h .glBuffers
        fun r : GlBuffer.RenderingState => (r.target, r.bufferId)) e.2 =
      GlVertexArray.lockFor (R.lock h' .glBuffers
        fun r : GlBuffer.RenderingState => (r.target, r.bufferId)) e.2 ↔
      (e.2.replaysPointer → ∀ b, e.2.glBuffer = some b → Survives h h' .glBuffers b) := by
    intro e he
    unfold GlVertexArray.lockFor
    split
    · rename_i hpointer
      rw [forall_prop_of_true hpointer]
      exact Rendering.lock_eq_iff hlater (hbelow _ (List.mem_map_of_mem he))
    · rename_i hpointer
      exact ⟨fun _ hpointer' => absurd hpointer' hpointer, fun _ => rfl⟩
  dsimp only [locks]
  constructor
  · intro hsame u hu
    obtain ⟨e, he, hu⟩ := List.mem_filterMap.mp hu
    split at hu
    · rename_i hpointer
      obtain ⟨b, hb, rfl⟩ := Option.map_eq_some_iff.mp hu
      exact (hentry e he).mp (hsame e he) hpointer b hb
    · cases hu
  · intro hkept e he
    refine (hentry e he).mpr fun hpointer b hb => hkept (.glBuffers, b) ?_
    refine List.mem_filterMap.mpr ⟨e, he, ?_⟩
    rw [if_pos hpointer, hb]
    rfl

theorem execute_uniforms_eq_iff (hR : R.Known h.next) {a : Nat} {us : List UniformVariable} :
    Closure.execute gl h R ⟨.glBaseTechniques, a, GlBaseTechnique.Command.uniforms us⟩ =
        Closure.execute gl h' R ⟨.glBaseTechniques, a, GlBaseTechnique.Command.uniforms us⟩ ↔
      ∀ u ∈ locks R ⟨.glBaseTechniques, a, GlBaseTechnique.Command.uniforms us⟩,
        Survives h h' u.1 u.2 := by
  rw [execute_eq_onState, execute_eq_onState, Rendering.onState_eq_iff]
  refine (GlBaseTechnique.Command.execute_uniforms_eq_iff fun x hx =>
    Rendering.lock_of_later hlater (hR a) hx).trans ?_
  dsimp only [locks]
  have hp := hR a
  generalize GlBaseTechnique.RenderingState.program (R.states .glBaseTechniques a) = p at hp ⊢
  have hlock : ∀ {h : Heap Object} {x}, R.lock h .glPrograms GlProgram.RenderingState.programId p =
      some x ↔ ∃ b, p = some b ∧ (h.get .glPrograms b).isSome ∧
        GlProgram.RenderingState.programId (R.states .glPrograms b) = x := Rendering.lock_eq_some
  constructor
  · intro hsame u hu halive
    split at hu
    · cases hu
    · rename_i b
      split at hu
      · rename_i hset
        obtain rfl := List.mem_singleton.mp hu
        have hkept := hsame _ (hlock.mpr ⟨b, rfl, halive, rfl⟩) hset.1 hset.2
        obtain ⟨b', ⟨⟩, halive', -⟩ := hlock.mp hkept
        exact halive'
      · cases hu
  · intro hkept x hx hne hset
    obtain ⟨b, rfl, halive, rfl⟩ := hlock.mp hx
    refine hlock.mpr ⟨b, rfl, hkept (.glPrograms, b) ?_ halive, rfl⟩
    dsimp only
    rw [if_pos ⟨hne, hset⟩]
    exact List.mem_singleton_self _

/-- The closures that carry copies do the same whatever has gone. -/
theorem execute_eq_iff (hR : R.Known h.next) {c : Closure} (hc : Below h.next c.captured) :
    c.execute gl h R = c.execute gl h' R ↔ ∀ u ∈ c.locks R, Survives h h' u.1 u.2 := by
  obtain ⟨k, a, c⟩ := c
  cases k with
  | virtualObjects | renderingUnits | glBuffers | glShaders | glTextures | glSamplers =>
    exact ⟨fun _ => nofun, fun _ => rfl⟩
  | glPrograms =>
    cases c with
    | delete => exact ⟨fun _ => nofun, fun _ => rfl⟩
    | link shaders => exact execute_link_eq_iff hlater hc
  | glVertexArrays =>
    cases c with
    | delete => exact ⟨fun _ => nofun, fun _ => rfl⟩
    | replay attributes => exact execute_replay_eq_iff hlater hc
  | glBaseTechniques =>
    cases c with
    | drawMethod _ _ _ | program _ | vertexArray _ | textures _ | delete =>
      exact ⟨fun _ => nofun, fun _ => rfl⟩
    | uniforms us => exact execute_uniforms_eq_iff hlater hR

end Closure

-- ---------------------------------------------------------------------------
-- Groups
-- ---------------------------------------------------------------------------

/-- The rendering thread executes closures, with what is alive in `h`. -/
def executeAll (gl : Driver) (h : Heap Object) (R : Rendering) (cs : List Closure) : Rendering :=
  cs.foldl (Closure.execute gl h) R

/-- The closures among the entries of a queue. -/
def closuresOf (entries : List (CommandInfo Closure)) : List Closure :=
  entries.filterMap CommandInfo.command?

-- ---------------------------------------------------------------------------
-- Between the commit and the execution
-- ---------------------------------------------------------------------------

def PoolLabel.isExecuteNext : PoolLabel → Bool
  | .executeNext => true
  | _ => false

namespace PoolState

variable {s s' s'' : PoolState} {k : Kind} {a : Nat}

/-- What the update thread does to what the rendering thread works with: it adds to the
queue. -/
structure Grows (s s' : PoolState) : Prop where
  queue : s.updateRenderingQueue.queue <+: s'.updateRenderingQueue.queue
  rendering : s'.rendering = s.rendering

theorem grows_of_eq (hqueue : s'.updateRenderingQueue = s.updateRenderingQueue)
    (hrendering : s'.rendering = s.rendering) : Grows s s' :=
  ⟨⟨[], (List.append_nil _).trans (congrArg AtomicCommandQueue.queue hqueue.symm)⟩, hrendering⟩

@[refl] theorem Grows.refl (s : PoolState) : Grows s s := grows_of_eq rfl rfl

theorem Grows.trans (h : Grows s s') (h' : Grows s' s'') : Grows s s'' :=
  ⟨h.queue.trans h'.queue, h'.rendering.trans h.rendering⟩

theorem grows_pushAll (cs : List (Command k)) : Grows s (s.pushAll k a cs) := by
  refine ⟨?_, rfl⟩
  rw [queue_pushAll]
  exact List.prefix_append _ _

theorem grows_destroy (s : PoolState) (a : Nat) : Grows s (s.destroy a) := by
  unfold destroy
  split
  · exact ⟨(grows_pushAll _).queue, rfl⟩
  · exact .refl s

theorem grows_foldl_destroy (s : PoolState) (as : List Nat) : Grows s (as.foldl destroy s) :=
  List.foldlRecOn as destroy (.refl s) fun s' hs' a _ => hs'.trans (grows_destroy s' a)

theorem grows_commitOne (s : PoolState) (k : Kind) (a : Nat) : Grows s (s.commitOne k a) := by
  rcases commitOne_cases s k a with heq | ⟨x, -, heq⟩
  · rw [heq]
  · rw [heq]
    exact ⟨(grows_pushAll _).queue, rfl⟩

theorem grows_commitVirtualObject (s : PoolState) (a : Nat) : Grows s (s.commitVirtualObject a) := by
  rcases walk_commitVirtualObject s a with heq | ⟨s', hwalk, heq⟩
  · rw [heq]
  · rw [heq]
    have hs' : Grows s s' :=
      hwalk.invariant (I := Grows s) (fun t k b ht => ht.trans (grows_commitOne t k b)) (.refl s)
    exact ⟨hs'.queue.trans (List.prefix_append _ _), hs'.rendering⟩

theorem grows_addNew (s : PoolState) (x : Object k) : Grows s (s.addNew k x) := by
  have halloc : Grows s { s with heap := s.heap.alloc k x } := grows_of_eq rfl rfl
  unfold addNew
  dsimp only
  split
  · exact grows_of_eq rfl rfl
  · exact halloc.trans (grows_destroy _ _)

theorem grows_scheduleRemove (s : PoolState) (k : Kind) (id : UInt64) :
    Grows s (s.scheduleRemove k id) := by
  have herase : Grows s (s.setContainer k ((s.containers k).erase id)) := grows_of_eq rfl rfl
  unfold PoolState.scheduleRemove
  split
  · exact .refl s
  · exact herase.trans (grows_destroy _ _)

theorem grows_handled (hs' : Handled s s') : Grows s s' := by
  cases hs' with
  | newVirtualObject id | deleteVirtualObject id | method _ a => exact grows_of_eq rfl rfl
  | new _ _ => exact grows_addNew s _
  | delete _ id => exact grows_scheduleRemove s _ id
  | @newInto k _ f _ a _ _ _ =>
    have hupdate : Grows s (s.update k f a) := grows_of_eq rfl rfl
    exact hupdate.trans (grows_addNew _ _)
  | commit a => exact grows_commitVirtualObject s a
  | move _ position quaternion =>
    exact ⟨(grows_pushAll _).queue.trans (List.prefix_append _ _), rfl⟩

theorem grows_step {gl : Driver} {l : PoolLabel} (hstep : (poolMachine gl).step s l = some s')
    (hl : ¬ l.isExecuteNext) : Grows s s' := by
  cases l with
  | request r => exact grows_handled (handle_cases (handle_of_step hstep))
  | newSession =>
    rw [newSession_of_step hstep]
    exact (grows_foldl_destroy s _).trans (grows_of_eq rfl rfl)
  | mergeNew => exact mergeNew_of_step hstep ▸ grows_of_eq rfl rfl
  | applyRemovals =>
    rw [applyRemovals_of_step hstep]
    exact (grows_foldl_destroy s _).trans (grows_of_eq rfl rfl)
  | executeNext => exact absurd rfl hl

-- ---------------------------------------------------------------------------
-- Snapshots
-- ---------------------------------------------------------------------------

/-- Throughout a run from `s`, the calls, the rendering states and all that was written to
them are what the closures executed so far, the first ones among `entries`, make of those
of `s` at once, with what is alive in `h`. -/
def AtOnce (gl : Driver) (h : Heap Object) (entries : List (CommandInfo Closure)) (s : PoolState)
    (ls : List PoolLabel) : Prop :=
  ∀ before t, before <+: ls → (poolMachine gl).runFrom s before = some t →
    t.rendering = executeAll gl h s.rendering
      (closuresOf (entries.take (before.countP PoolLabel.isExecuteNext)))

/-- A closure that is executed finds alive what it locks to some effect, if it was alive
in `h`. -/
def FindsAlive (h : Heap Object) (s : PoolState) : PoolLabel → Prop
  | .executeNext => ∀ e ∈ s.updateRenderingQueue.queue.head?, ∀ c ∈ e.command?,
    ∀ u ∈ c.locks s.rendering, Survives h s.heap u.1 u.2
  | _ => True

instance (h : Heap Object) (s : PoolState) (l : PoolLabel) : Decidable (FindsAlive h s l) :=
  match l with
  | .executeNext => inferInstanceAs (Decidable (∀ e ∈ s.updateRenderingQueue.queue.head?, _))
  | .request _ | .newSession | .mergeNew | .applyRemovals => isTrue trivial

variable {gl : Driver} {h : Heap Object} {entries : List (CommandInfo Closure)} {l : PoolLabel}
  {ls : List PoolLabel}

theorem findsAlive_of_not_isExecuteNext (hl : ¬ l.isExecuteNext) : FindsAlive h s l := by
  cases l with
  | executeNext => exact absurd rfl hl
  | _ => trivial

theorem findsAlive_of_commit {queue : List (CommandInfo Closure)}
    (hqueue : s.updateRenderingQueue.queue = .commit :: queue) : FindsAlive h s .executeNext := by
  rw [FindsAlive, hqueue]
  rintro e ⟨⟩ c ⟨⟩

theorem findsAlive_iff_of_command {c : Closure} {queue : List (CommandInfo Closure)}
    (hqueue : s.updateRenderingQueue.queue = .command c :: queue) :
    FindsAlive h s .executeNext ↔ ∀ u ∈ c.locks s.rendering, Survives h s.heap u.1 u.2 := by
  rw [FindsAlive, hqueue]
  simp [CommandInfo.command?]

theorem atOnce_cons (hstep : (poolMachine gl).step s l = some s') :
    AtOnce gl h entries s (l :: ls) ↔ ∀ before t, before <+: ls →
      (poolMachine gl).runFrom s' before = some t → t.rendering = executeAll gl h s.rendering
        (closuresOf (entries.take ((l :: before).countP PoolLabel.isExecuteNext))) := by
  constructor
  · intro honce before t hbefore hrun
    refine honce (l :: before) t (List.cons_prefix_cons.mpr ⟨rfl, hbefore⟩) ?_
    rw [Machine.runFrom, hstep, Option.bind_some, hrun]
  · intro hrest before t hbefore hrun
    cases before with
    | nil =>
      cases hrun
      rfl
    | cons l' before =>
      obtain ⟨rfl, hshorter⟩ := List.cons_prefix_cons.mp hbefore
      rw [Machine.runFrom, hstep, Option.bind_some] at hrun
      exact hrest before t hshorter hrun

/-- A step that executes nothing. -/
theorem atOnce_cons_of_grows (hstep : (poolMachine gl).step s l = some s') (hl : ¬ l.isExecuteNext)
    (hrendering : s'.rendering = s.rendering) :
    AtOnce gl h entries s (l :: ls) ↔ AtOnce gl h entries s' ls := by
  rw [atOnce_cons hstep]
  simp only [List.countP_cons_of_neg hl, AtOnce, hrendering]

/-- The mark at the end of a group. -/
theorem atOnce_cons_commit (hstep : (poolMachine gl).step s .executeNext = some s')
    (hrendering : s'.rendering = s.rendering) :
    AtOnce gl h (.commit :: entries) s (.executeNext :: ls) ↔ AtOnce gl h entries s' ls := by
  have hcount : ∀ before : List PoolLabel, (PoolLabel.executeNext :: before).countP
      PoolLabel.isExecuteNext = before.countP PoolLabel.isExecuteNext + 1 :=
    fun _ => List.countP_cons_of_pos rfl
  rw [atOnce_cons hstep]
  simp only [hcount, AtOnce, hrendering, List.take_succ_cons, closuresOf, List.filterMap_cons,
    CommandInfo.command?]

/-- The next closure is executed. -/
theorem atOnce_cons_command {c : Closure} (hstep : (poolMachine gl).step s .executeNext = some s')
    (hrendering : s'.rendering = c.execute gl s.heap s.rendering) :
    AtOnce gl h (.command c :: entries) s (.executeNext :: ls) ↔
      c.execute gl h s.rendering = c.execute gl s.heap s.rendering ∧ AtOnce gl h entries s' ls := by
  have hcount : ∀ before : List PoolLabel, (PoolLabel.executeNext :: before).countP
      PoolLabel.isExecuteNext = before.countP PoolLabel.isExecuteNext + 1 :=
    fun _ => List.countP_cons_of_pos rfl
  rw [atOnce_cons hstep]
  simp only [hcount, AtOnce, List.take_succ_cons, closuresOf, List.filterMap_cons,
    CommandInfo.command?, executeAll, List.foldl_cons]
  constructor
  · intro honce
    have hsame : s'.rendering = c.execute gl h s.rendering :=
      honce [] s' (List.nil_prefix) rfl
    refine ⟨hsame.symm.trans hrendering, ?_⟩
    rwa [hsame]
  · rintro ⟨hsame, hrest⟩
    rwa [hsame, ← hrendering]

/-- Whatever is done in between: the entries are executed in order, and to the same effect
as at once exactly when they find alive what they lock. -/
theorem atOnce_iff_findsAlive (hrun : (poolMachine gl).runFrom s ls = some s')
    (hlater : h.Later s.heap) (hknown : s.rendering.Known h.next)
    (hclosures : ∀ c, .command c ∈ entries → Below h.next c.captured)
    (hqueue : entries <+: s.updateRenderingQueue.queue)
    (hcount : ls.countP PoolLabel.isExecuteNext ≤ entries.length) :
    entries.drop (ls.countP PoolLabel.isExecuteNext) <+: s'.updateRenderingQueue.queue ∧
      (AtOnce gl h entries s ls ↔ (poolMachine gl).AlongFrom (FindsAlive h) s ls) := by
  induction ls generalizing s entries with
  | nil =>
    cases hrun
    refine ⟨hqueue, iff_of_true ?_ trivial⟩
    intro before t hbefore hrun
    obtain rfl := List.prefix_nil.mp hbefore
    cases hrun
    rfl
  | cons l ls ih =>
    obtain ⟨t, hstep, hrun⟩ := Option.bind_eq_some_iff.mp hrun
    have hlater' := hlater.trans (later_step hstep)
    have halong : (poolMachine gl).AlongFrom (FindsAlive h) s (l :: ls) ↔
        FindsAlive h s l ∧ (poolMachine gl).AlongFrom (FindsAlive h) t ls := by
      rw [Machine.AlongFrom, hstep]
    rw [halong]
    cases Decidable.em (l.isExecuteNext = true) with
    | inr hl =>
      have hgrows := grows_step hstep hl
      rw [List.countP_cons_of_neg hl] at hcount ⊢
      obtain ⟨hrest, hiff⟩ := ih hrun hlater' (hgrows.rendering ▸ hknown) hclosures
        (hqueue.trans hgrows.queue) hcount
      refine ⟨hrest, (atOnce_cons_of_grows hstep hl hgrows.rendering).trans (hiff.trans ?_)⟩
      exact (and_iff_right (findsAlive_of_not_isExecuteNext hl)).symm
    | inl hl =>
      cases l with
      | request _ | newSession | mergeNew | applyRemovals => cases hl
      | executeNext =>
        rw [List.countP_cons_of_pos hl] at hcount ⊢
        cases entries with
        | nil => cases hcount
        | cons e entries =>
          obtain ⟨newer, hnewer⟩ := hqueue
          have hclosures' : ∀ c, .command c ∈ entries → Below h.next c.captured :=
            fun c hc => hclosures c (List.mem_cons_of_mem _ hc)
          have hcount' := Nat.le_of_succ_le_succ hcount
          rcases executeNext_cases hstep with ⟨queue, hpopped, rfl⟩ | ⟨c, queue, hpopped, rfl⟩
          · cases hnewer.trans hpopped
            obtain ⟨hrest, hiff⟩ := ih hrun hlater' hknown hclosures' ⟨newer, rfl⟩ hcount'
            refine ⟨hrest, (atOnce_cons_commit hstep rfl).trans (hiff.trans ?_)⟩
            exact (and_iff_right (findsAlive_of_commit hpopped)).symm
          · cases hnewer.trans hpopped
            have hc := hclosures c List.mem_cons_self
            obtain ⟨hrest, hiff⟩ := ih hrun hlater' (hknown.execute gl s.heap hc) hclosures'
              ⟨newer, rfl⟩ hcount'
            refine ⟨hrest, (atOnce_cons_command hstep rfl).trans (and_congr ?_ hiff)⟩
            exact (Closure.execute_eq_iff hlater hknown hc).trans (findsAlive_iff_of_command hpopped).symm

/-- The entries that are pending after a commit, those of the commit at the end, and
whatever is done until the last of them has been executed. They are executed as they would
have been right after the commit, exactly when each closure finds alive what it locks. -/
theorem atOnce_commit_iff {gl : Driver} {ls ls' : List PoolLabel} {id : UInt64} {s s₁ s₂ : PoolState}
    (hrun : (poolMachine gl).run ls = some s)
    (hcommit : (poolMachine gl).step s (.request (.virtualObjectCommit id)) = some s₁)
    (hafter : (poolMachine gl).runFrom s₁ ls' = some s₂)
    (hcount : ls'.countP PoolLabel.isExecuteNext ≤ s₁.updateRenderingQueue.queue.length) :
    s₁.updateRenderingQueue.queue.drop (ls'.countP PoolLabel.isExecuteNext) <+:
        s₂.updateRenderingQueue.queue ∧
      (AtOnce gl s₁.heap s₁.updateRenderingQueue.queue s₁ ls' ↔
        (poolMachine gl).AlongFrom (FindsAlive s₁.heap) s₁ ls') := by
  have hknown := known_run (Machine.run_concat.mpr ⟨s, hrun, hcommit⟩)
  exact atOnce_iff_findsAlive hafter (.refl _) hknown.rendering hknown.closures (List.prefix_refl _) hcount

/-- A virtual object whose technique draws with a program of one shader. -/
def linkedProgram : List PoolLabel :=
  [.request (.virtualObjectNew 1), .request (.renderingUnitNew 2 1),
    .request (.glBaseTechniqueNew 3 2), .request (.glShaderNew 4 [] 0x8b31),
    .request (.glProgramNew 5), .request (.glAttachShader 5 4), .request (.glLinkProgram 5),
    .request (.bindProgram 3 5)]

/-- The group of a first commit is pending when a uniform variable is set. -/
def uniformPending : List PoolLabel :=
  linkedProgram ++ [.request (.virtualObjectCommit 1),
    .request (.glUniform 3 ⟨3, [], 0x1404, 1, 1, 1, false, [0, 0, 0, 0]⟩)]

/-- The shader is deleted when the program has been linked. -/
def deletedOnceLinked : List PoolLabel :=
  [.executeNext, .executeNext, .request (.glShaderDelete 4)] ++ List.replicate 8 .executeNext

theorem atOnce_commit_iff_deletedOnceLinked :
    ∃ s s₁ s₂, (poolMachine constantDriver).run uniformPending = some s ∧
      (poolMachine constantDriver).step s (.request (.virtualObjectCommit 1)) = some s₁ ∧
      (poolMachine constantDriver).runFrom s₁ deletedOnceLinked = some s₂ ∧
      AtOnce constantDriver s₁.heap s₁.updateRenderingQueue.queue s₁ deletedOnceLinked := by
  obtain ⟨s, s₁, s₂, hrun, hcommit, hafter, hlength, hfinds⟩ : ∃ s s₁ s₂,
      (poolMachine constantDriver).run uniformPending = some s ∧
      (poolMachine constantDriver).step s (.request (.virtualObjectCommit 1)) = some s₁ ∧
      (poolMachine constantDriver).runFrom s₁ deletedOnceLinked = some s₂ ∧
      s₁.updateRenderingQueue.queue.length = 10 ∧
      (poolMachine constantDriver).AlongFrom (FindsAlive s₁.heap) s₁ deletedOnceLinked :=
    ⟨_, _, _, rfl, rfl, rfl, rfl, by decide +kernel⟩
  have hcount : deletedOnceLinked.countP PoolLabel.isExecuteNext ≤
      s₁.updateRenderingQueue.queue.length := hlength ▸ by decide
  exact ⟨s, s₁, s₂, hrun, hcommit, hafter, (atOnce_commit_iff hrun hcommit hafter hcount).2.mpr hfinds⟩

/-- The shader is deleted before the closure that links the program is executed. -/
def shaderDeleted : List PoolLabel :=
  .request (.glShaderDelete 4) :: List.replicate 6 .executeNext

theorem not_atOnce_shaderDeleted :
    ∃ s s₁ s₂, (poolMachine constantDriver).run linkedProgram = some s ∧
      (poolMachine constantDriver).step s (.request (.virtualObjectCommit 1)) = some s₁ ∧
      (poolMachine constantDriver).runFrom s₁ shaderDeleted = some s₂ ∧
      shaderDeleted.countP PoolLabel.isExecuteNext ≤ s₁.updateRenderingQueue.queue.length ∧
      ¬ AtOnce constantDriver s₁.heap s₁.updateRenderingQueue.queue s₁ shaderDeleted := by
  refine ⟨_, _, _, rfl, rfl, rfl, by decide +kernel, fun honce => ?_⟩
  have hcalls := congrArg (fun R => R.calls.length) (honce shaderDeleted _ (List.prefix_refl _) rfl)
  exact absurd hcalls (by decide +kernel)

end PoolState

end ZenRemote.Client
