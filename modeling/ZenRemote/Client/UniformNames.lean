-- SUMMARY: Uniform variables by their names: where the value of a name is uploaded, and which program decides that.
import ZenRemote.Client.TechniqueRun

/-!
# Uniform variables by name

The closure of a commit looks up the location of a name in the program that it finds,
and keeps the value under that location. Drawing uploads what is kept, with whatever
program is bound by then. The value of a name gets to the variable of that name if the
last value that was kept under its location is the last one that was set for it. Which
values have been set, a ledger tells by the calls and the commits alone.
-/

namespace ZenRemote.Client.GlBaseTechnique

/-- GL with a map of locations for each program. -/
def locationDriver (locations : GLuint → Bytes → Int32) : Driver where
  name := fun _ _ => 0
  value := fun _ c => match c with
    | .getUniformLocation programId name => locations programId name
    | _ => 0

/-- A variable in an executed closure, with the linked program that was found. -/
abbrev Assignment := Option GLuint × UniformVariable

variable (locations : GLuint → Bytes → Int32)

/-- Where the value is kept, if it is. -/
def keptAt : Assignment → Option UInt32
  | (none, _) => none
  | (some programId, u) =>
    let location := if u.name = [] then u.location.toInt32 else locations programId u.name
    if location < 0 then none else some location.toUInt32

/-- The last value that was kept under a location. -/
def lastAt (assignments : List Assignment) (key : UInt32) : Option UniformVariable :=
  (assignments.filter fun a => keptAt locations a = some key).getLast?.map Prod.snd

/-- The last value that was set for a name. -/
def lastNamed (assignments : List Assignment) (name : Bytes) : Option UniformVariable :=
  (assignments.filter fun a => a.2.name = name).getLast?.map Prod.snd

/-- The upload of a variable to a location. -/
def upload (key : UInt32) (u : UniformVariable) : GlCall :=
  if u.col = 1 then .uniformVector u.type u.row key u.count u.value
  else .uniformMatrix u.col u.row key u.count u.transpose u.value

def uploadLocation : GlCall → Option UInt32
  | .uniformVector _ _ location _ _ => some location
  | .uniformMatrix _ _ location _ _ _ => some location
  | _ => none

/-- What rendering uploads to a location. -/
def uploadsAt (m : Matrices) (s : State) (key : UInt32) : List GlCall :=
  ((uploads (s.rendering.render (locationDriver locations) s.env m).thread).drop
    (uploads s.rendering.thread).length).filter fun c => uploadLocation c = some key

/-- For each uniform variable of a program, the last value set for its name is uploaded
at its location, and nothing else is. -/
def UploadsByName (programId : GLuint) (m : Matrices) (s : State) (assignments : List Assignment) : Prop :=
  ∀ name ≠ [], 0 ≤ locations programId name →
    uploadsAt locations m s (locations programId name).toUInt32 =
      ((lastNamed assignments name).map (upload (locations programId name).toUInt32)).toList

/-- For each uniform variable of a program, the last value kept under its location
is the last one set for its name, or uploads the same. -/
def KeptByName (programId : GLuint) (assignments : List Assignment) : Prop :=
  ∀ name ≠ [], 0 ≤ locations programId name →
    (lastAt locations assignments (locations programId name).toUInt32).map
        (upload (locations programId name).toUInt32) =
      (lastNamed assignments name).map (upload (locations programId name).toUInt32)

/-- The type is one of the enumeration's. -/
def KnownType (u : UniformVariable) : Prop := u.type ∈ [(0 : Int32), 1, 2]

-- ---------------------------------------------------------------------------
-- What has been set
-- ---------------------------------------------------------------------------

/-- What a run shows of the calls that set values, and of the commits. -/
inductive Event where
  /-- `GlUniform` accepts a value. -/
  | set (u : UniformVariable)
  /-- A commit that finds the bound program alive, with the length of the queue behind it. -/
  | commit (left : Nat)
  /-- A closure is executed, and this linked program is found. -/
  | execute (found : Option GLuint)

def events (s : State) : Label → List Event
  | .update (.glUniform u) => if Accepted u then [.set u] else []
  | .commit =>
    if s.env.expired s.pending.program then []
    else [.commit (s.queue.length + (s.pending.commitCommands s.env.expired).length)]
  | .execute => [.execute (s.env.linked s.rendering.rendering.program)]
  | .update _ | .render _ => []

/-- The values since the last commit, those of commits that are on the way, each with the
number of closures left until it has been executed, and those of the executed commits. -/
structure Ledger where
  set : List UniformVariable := []
  commits : List (Nat × List UniformVariable) := []
  executed : List Assignment := []

namespace Ledger

/-- A commit has been executed when none of its closures is left. -/
def settle (a : Ledger) (found : Option GLuint) : Ledger :=
  { a with
    commits := a.commits.filter fun c => c.1 ≠ 0
    executed := a.executed ++
      (a.commits.filter fun c => c.1 = 0).flatMap fun c => c.2.map fun u => (found, u) }

def record (a : Ledger) : Event → Ledger
  | .set u => { a with set := a.set ++ [u] }
  | .commit left => settle { a with set := [], commits := a.commits ++ [(left, a.set)] } none
  | .execute found => settle { a with commits := a.commits.map fun c => (c.1 - 1, c.2) } found

end Ledger

/-- The values of the executed commits of a run, each with the linked program, if any, that
was found at the end of its commit. -/
def executedValues (id : UInt64) (ls : List Label) : List Assignment :=
  (((pipeline (locationDriver locations) id).machine.observed events ls).foldl Ledger.record {}).executed

-- ---------------------------------------------------------------------------
-- The table of values
-- ---------------------------------------------------------------------------

/-- The rendering state keeps the last value under each location. -/
def Keeps (stored : AList fun _ : UInt32 => UniformVariable) (assignments : List Assignment) : Prop :=
  ∀ key, stored.lookup key =
    (lastAt locations assignments key).map fun u => { u with name := [], location := key }

variable {locations} {stored : AList fun _ : UInt32 => UniformVariable} {assignments : List Assignment}

theorem lastAt_concat (a : Assignment) (key : UInt32) : lastAt locations (assignments ++ [a]) key =
    if keptAt locations a = some key then some a.2 else lastAt locations assignments key := by
  rw [lastAt, List.filter_append]
  split
  · rename_i hkept
    rw [List.filter_cons, if_pos (decide_eq_true hkept), List.filter_nil, List.getLast?_concat]
    rfl
  · rename_i hkept
    rw [List.filter_cons, if_neg (by simpa using hkept), List.filter_nil, List.append_nil, lastAt]

theorem Keeps.assign (h : Keeps locations stored assignments) (programId : GLuint)
    (calls : List GlCall) (u : UniformVariable) :
    Keeps locations (assign stored (resolved (locationDriver locations) programId calls u) u)
      (assignments ++ [(some programId, u)]) := by
  intro key
  have hresolved : keptAt locations (some programId, u) =
      if resolved (locationDriver locations) programId calls u < 0 then none
      else some (resolved (locationDriver locations) programId calls u).toUInt32 := rfl
  rw [lastAt_concat, hresolved, GlBaseTechnique.assign]
  generalize resolved (locationDriver locations) programId calls u = location
  split
  · exact h key
  · cases Decidable.em (key = location.toUInt32) with
    | inl heq =>
      rw [heq, AList.lookup_insert, if_pos rfl, h]
      cases lastAt locations assignments location.toUInt32 with
      | none => rfl
      | some u' => rfl
    | inr hne =>
      rw [AList.lookup_insert_ne hne, if_neg fun heq => hne (Option.some.inj heq).symm]
      exact h key

/-- Values that find no linked program are kept nowhere. -/
theorem Keeps.dropped (h : Keeps locations stored assignments) (us : List UniformVariable) :
    Keeps locations stored (assignments ++ us.map fun u => (none, u)) := by
  intro key
  rw [lastAt, List.filter_append]
  have hnone : (us.map fun u => ((none, u) : Assignment)).filter
      (fun a => keptAt locations a = some key) = [] := by
    apply List.filter_eq_nil_iff.mpr
    intro a ha
    obtain ⟨u, -, rfl⟩ := List.mem_map.mp ha
    exact nofun
  rw [hnone, List.append_nil]
  exact h key

theorem Keeps.foldl (programId : GLuint) (us : List UniformVariable) {t : Thread RenderingState}
    (h : Keeps locations t.rendering.uniformVariables assignments) :
    Keeps locations
      (us.foldl (Command.setUniform (locationDriver locations) programId) t).rendering.uniformVariables
      (assignments ++ us.map fun u => (some programId, u)) := by
  induction us generalizing t assignments with
  | nil =>
    rw [List.map_nil, List.append_nil]
    exact h
  | cons u us ih =>
    rw [List.map_cons, List.append_cons]
    apply ih
    rw [rendering_setUniform]
    exact h.assign programId t.calls u

theorem Keeps.execute {r : Rendered} (h : Keeps locations r.rendering.uniformVariables r.assigned)
    (e : Surroundings) (c : Command) :
    Keeps locations (r.execute (locationDriver locations) e c).rendering.uniformVariables
      (r.execute (locationDriver locations) e c).assigned := by
  have hsame : ∀ r' : Rendered, r'.rendering.uniformVariables = r.rendering.uniformVariables →
      r'.assigned = r.assigned ++ [] → Keeps locations r'.rendering.uniformVariables r'.assigned := by
    intro r' hvariables hassigned
    rw [hvariables, hassigned, List.append_nil]
    exact h
  cases c with
  | drawMethod args method buffer => exact hsame _ rfl rfl
  | program p => exact hsame _ rfl rfl
  | vertexArray v => exact hsame _ rfl rfl
  | textures bindings => exact hsame _ rfl rfl
  | delete => exact hsame _ rfl rfl
  | uniforms us =>
    have hdropped : e.linked r.rendering.program = none →
        Keeps locations r.rendering.uniformVariables
          (r.assigned ++ us.map fun u => (e.linked r.rendering.program, u)) := by
      intro hnone
      rw [hnone]
      exact h.dropped us
    show Keeps locations
      (Command.execute (locationDriver locations) e.lock r.thread (.uniforms us)).rendering.uniformVariables
      (r.assigned ++ us.map fun u => (e.linked r.rendering.program, u))
    rw [Command.execute]
    split
    · rename_i hlock
      apply hdropped
      have hlock' : e.lock r.rendering.program = none := hlock
      rw [Surroundings.linked, hlock', Option.filter_none]
    · rename_i programId hlock
      have hlock' : e.lock r.rendering.program = some programId := hlock
      split
      · rename_i hzero
        apply hdropped
        rw [Surroundings.linked, hlock', hzero]
        rfl
      · rename_i hlinked
        have hprogram : e.linked r.rendering.program = some programId := by
          rw [Surroundings.linked, hlock', Option.filter_some, if_pos (decide_eq_true hlinked)]
        rw [hprogram]
        exact .foldl programId us h

-- ---------------------------------------------------------------------------
-- The ledger
-- ---------------------------------------------------------------------------

/-- The values in a closure. -/
def Command.values : Command → List UniformVariable
  | .uniforms us => us
  | .drawMethod _ _ _ => []
  | .program _ => []
  | .vertexArray _ => []
  | .textures _ => []
  | .delete => []

theorem Rendered.assignments_eq (e : Surroundings) (r : RenderingState) (c : Command) :
    Rendered.assignments e r c = c.values.map fun u => (e.linked r.program, u) := by
  cases c with
  | uniforms us => rfl
  | _ => rfl

/-- The last closure of a commit has all the values, if its program is alive. -/
theorem commitCommands_eq (t : GlBaseTechnique) (expired : WeakPtr → Bool) :
    ∃ front, (∀ c ∈ front, Command.values c = []) ∧ t.commitCommands expired = front ++
      if !expired t.program && t.uniformVariables ≠ [] then [.uniforms t.uniformVariables] else [] := by
  refine ⟨_, fun c hc => ?_, rfl⟩
  have hpart : ∀ {damaged : Bool} {c' : Command}, c ∈ (if damaged then [c'] else []) → c'.values = [] →
      c.values = [] := by
    intro damaged c' hmem hc'
    split at hmem
    · exact List.mem_singleton.mp hmem ▸ hc'
    · cases hmem
  simp only [List.mem_append] at hc
  rcases hc with ((hmethod | hprogram) | hvertexArray) | htextures
  · exact hpart hmethod rfl
  · exact hpart hprogram rfl
  · exact hpart hvertexArray rfl
  · exact hpart htextures rfl

theorem values_commitCommands (t : GlBaseTechnique) (expired : WeakPtr → Bool) (i : Nat) :
    (t.commitCommands expired)[i]?.elim [] Command.values =
      if expired t.program = false ∧ (t.commitCommands expired).length = i + 1 then t.uniformVariables
      else [] := by
  obtain ⟨front, hfront, heq⟩ := commitCommands_eq t expired
  have hvalues : ∀ j : Nat, (front[j]? : Option Command).elim [] Command.values = [] := by
    intro j
    cases hj : front[j]? with
    | none => rfl
    | some c => exact hfront c (List.mem_of_getElem? hj)
  rw [heq]
  split
  · rename_i hlast
    rw [Bool.and_eq_true, Bool.not_eq_true'] at hlast
    rcases Nat.lt_trichotomy i front.length with hlt | heq | hgt
    · rw [List.getElem?_append_left hlt, hvalues, if_neg]
      rw [List.length_append, List.length_singleton]
      omega
    · subst heq
      simp [hlast.1, Command.values]
    · rw [List.getElem?_eq_none (by rw [List.length_append, List.length_singleton]; omega), if_neg]
      · rfl
      · rw [List.length_append, List.length_singleton]
        omega
  · rename_i hlast
    rw [List.append_nil, hvalues]
    split
    · rename_i halive
      by_contra hset
      exact hlast (by simp [halive.1, Ne.symm hset])
    · rfl

/-- A commit with a program that is alive has a closure, unless there is no value. -/
theorem uniformVariables_of_commitCommands_eq_nil {t : GlBaseTechnique} {expired : WeakPtr → Bool}
    (halive : expired t.program = false) (hnil : (t.commitCommands expired).length = 0) :
    t.uniformVariables = [] := by
  obtain ⟨front, -, heq⟩ := commitCommands_eq t expired
  rw [List.length_eq_zero_iff, heq, List.append_eq_nil_iff] at hnil
  by_contra hset
  simp [halive, hset] at hnil

theorem values_append (queue cs : List Command) (i : Nat) :
    (queue ++ cs)[i]?.elim [] Command.values = queue[i]?.elim [] Command.values ++
      if i < queue.length then [] else cs[i - queue.length]?.elim [] Command.values := by
  split
  · rename_i hlt
    rw [List.getElem?_append_left hlt, List.append_nil]
  · rename_i hge
    rw [List.getElem?_append_right (not_lt.mp hge), List.getElem?_eq_none (not_lt.mp hge)]
    rfl

namespace Ledger

/-- The values of the commits that have so many closures left. -/
def values (a : Ledger) (left : Nat) : List UniformVariable :=
  (a.commits.filter fun c => c.1 = left).flatMap Prod.snd

/-- Each commit has a closure left. -/
def OnTheWay (a : Ledger) : Prop := ∀ c ∈ a.commits, c.1 ≠ 0

variable {a : Ledger}

theorem onTheWay_settle (a : Ledger) (found : Option GLuint) : (a.settle found).OnTheWay :=
  fun _ hc => of_decide_eq_true (List.mem_filter.mp hc).2

theorem values_settle (a : Ledger) (found : Option GLuint) (i : Nat) :
    (a.settle found).values (i + 1) = a.values (i + 1) := by
  unfold settle values
  rw [List.filter_filter]
  congr 1
  apply List.filter_congr
  intro c _
  rw [← Bool.decide_and, decide_eq_decide]
  omega

theorem values_record_commit (a : Ledger) (left i : Nat) :
    (a.record (.commit left)).values (i + 1) = a.values (i + 1) ++ if left = i + 1 then a.set else [] := by
  refine (values_settle _ none i).trans ?_
  unfold values
  rw [List.filter_append, List.flatMap_append, List.filter_cons, List.filter_nil]
  simp only [decide_eq_true_eq]
  split
  · exact congrArg _ (List.append_nil _)
  · rfl

/-- A commit that pushes nothing behind an empty queue is executed at once, and has set nothing. -/
theorem executed_record_commit (ha : a.OnTheWay) {left : Nat} (hset : left = 0 → a.set = []) :
    (a.record (.commit left)).executed = a.executed := by
  have hnone : a.commits.filter (fun c => c.1 = 0) = [] :=
    List.filter_eq_nil_iff.mpr fun c hc => by simpa using ha c hc
  show a.executed ++ ((a.commits ++ [(left, a.set)]).filter fun c => c.1 = 0).flatMap _ = a.executed
  rw [List.filter_append, hnone, List.nil_append, List.filter_cons, List.filter_nil]
  split
  · rename_i hleft
    rw [hset (of_decide_eq_true hleft)]
    exact List.append_nil _
  · exact List.append_nil _

/-- A commit that is executed now has had one closure left. -/
theorem filter_decrease (ha : a.OnTheWay) (i : Nat) :
    (a.commits.map fun c => (c.1 - 1, c.2)).filter (fun c => c.1 = i) =
      (a.commits.filter fun c => c.1 = i + 1).map fun c => (c.1 - 1, c.2) := by
  rw [List.filter_map]
  congr 1
  apply List.filter_congr
  intro c hc
  have hleft := ha c hc
  rw [Function.comp_apply, decide_eq_decide]
  omega

theorem values_record_execute (ha : a.OnTheWay) (found : Option GLuint) (i : Nat) :
    (a.record (.execute found)).values (i + 1) = a.values (i + 2) := by
  refine (values_settle _ found i).trans ?_
  unfold values
  rw [filter_decrease ha, List.flatMap_map]

theorem executed_record_execute (ha : a.OnTheWay) (found : Option GLuint) :
    (a.record (.execute found)).executed = a.executed ++ (a.values 1).map fun u => (found, u) := by
  show a.executed ++ ((a.commits.map fun c => (c.1 - 1, c.2)).filter fun c => c.1 = 0).flatMap _ = _
  rw [filter_decrease ha, List.flatMap_map, values, List.map_flatMap]

end Ledger

/-- The ledger is right about the state. -/
structure Recorded (s : State) (a : Ledger) : Prop where
  set : a.set = s.pending.uniformVariables
  onTheWay : a.OnTheWay
  values : ∀ i, s.queue[i]?.elim [] Command.values = a.values (i + 1)
  executed : a.executed = s.rendering.assigned

theorem Recorded.commit {s : State} {a : Ledger} (id : UInt64) (h : Recorded s a) {s' : State}
    (hstep : (pipeline (locationDriver locations) id).step s .commit = some s') :
    Recorded s' ((events s .commit).foldl Ledger.record a) := by
  obtain rfl := Option.some.inj hstep
  set cs := s.pending.commitCommands s.env.expired with hcs
  have hqueue : ∀ i, (s.queue ++ cs)[i]?.elim [] Command.values = a.values (i + 1) ++
      if i < s.queue.length then [] else
        if s.env.expired s.pending.program = false ∧ cs.length = i - s.queue.length + 1 then
          s.pending.uniformVariables else [] := by
    intro i
    rw [values_append, h.values, hcs, values_commitCommands]
  unfold events
  cases hexpired : s.env.expired s.pending.program with
  | true =>
    rw [if_pos rfl]
    refine ⟨h.set.trans (if_pos hexpired).symm, h.onTheWay, fun i => (hqueue i).trans ?_, h.executed⟩
    simp [hexpired]
  | false =>
    have hnil : cs.length = 0 → a.set = [] := fun hnone =>
      h.set.trans (uniformVariables_of_commitCommands_eq_nil hexpired hnone)
    rw [if_neg Bool.false_ne_true]
    refine ⟨(if_neg (by simp [hexpired])).symm, Ledger.onTheWay_settle _ none, fun i => ?_, ?_⟩
    · show (s.queue ++ cs)[i]?.elim [] Command.values =
        (a.record (.commit (s.queue.length + cs.length))).values (i + 1)
      rw [hqueue, Ledger.values_record_commit, hexpired, ← h.set]
      congr 1
      simp only [true_and]
      -- the values are those of the last closure of the commit, if it has pushed one
      split
      · split
        · exact (hnil (by omega)).symm
        · rfl
      · split
        · rw [if_pos (by omega)]
        · rw [if_neg (by omega)]
    · show (a.record (.commit (s.queue.length + cs.length))).executed = s.rendering.assigned
      rw [Ledger.executed_record_commit h.onTheWay fun hleft => hnil (by omega), h.executed]

theorem Recorded.execute {s : State} {a : Ledger} (id : UInt64) (h : Recorded s a) {s' : State}
    (hstep : (pipeline (locationDriver locations) id).step s .execute = some s') :
    Recorded s' ((events s .execute).foldl Ledger.record a) := by
  cases Pipeline.step_cases hstep with
  | @execute c queue hqueue =>
    have hfirst : c.values = a.values 1 := by
      have hvalues := h.values 0
      rwa [hqueue] at hvalues
    refine ⟨h.set, Ledger.onTheWay_settle _ _, fun i => ?_, ?_⟩
    · refine Eq.trans ?_ (Ledger.values_record_execute h.onTheWay _ i).symm
      have hvalues := h.values (i + 1)
      rwa [hqueue] at hvalues
    · refine (Ledger.executed_record_execute h.onTheWay _).trans ?_
      show _ = s.rendering.assigned ++ Rendered.assignments s.env s.rendering.rendering c
      rw [h.executed, Rendered.assignments_eq, hfirst]

theorem Recorded.step {s s' : State} {a : Ledger} {l : Label} (id : UInt64) (h : Recorded s a)
    (hstep : (pipeline (locationDriver locations) id).step s l = some s') :
    Recorded s' ((events s l).foldl Ledger.record a) := by
  cases l with
  | commit => exact h.commit id hstep
  | execute => exact h.execute id hstep
  | render m =>
    cases Pipeline.step_cases hstep with
    | render m => exact ⟨h.set, h.onTheWay, h.values, h.executed⟩
  | update o =>
    cases Pipeline.step_cases hstep with
    | @update o e technique hupdate =>
      have hupdated : GlBaseTechnique.update s.env s.pending o = some (e, technique) := hupdate
      have hvariables := uniformVariables_update hupdated
      cases o with
      | glUniform u =>
        cases hupdate
        show Recorded _ ((if Accepted u then [Event.set u] else []).foldl Ledger.record a)
        cases Decidable.em (Accepted u) with
        | inl haccepted =>
          rw [if_pos haccepted]
          have hset : (s.pending.glUniform u).uniformVariables = s.pending.uniformVariables ++ [u] :=
            congrArg uniformVariables (if_pos haccepted)
          exact ⟨(congrArg (· ++ [u]) h.set).trans hset.symm, h.onTheWay, h.values, h.executed⟩
        | inr hrefused =>
          rw [if_neg hrefused]
          have hset : (s.pending.glUniform u).uniformVariables = s.pending.uniformVariables :=
            congrArg uniformVariables (if_neg hrefused)
          exact ⟨h.set.trans hset.symm, h.onTheWay, h.values, h.executed⟩
      | _ =>
        rcases hvariables with hsame | ⟨u, ⟨⟩, -⟩
        exact ⟨h.set.trans hsame.symm, h.onTheWay, h.values, h.executed⟩

theorem assigned_eq_executedValues {id : UInt64} {ls : List Label} {s : State}
    (hrun : (pipeline (locationDriver locations) id).machine.run ls = some s) :
    s.rendering.assigned = executedValues locations id ls := by
  have hrecorded : Recorded s _ := Machine.run_observed (f := events) (g := Ledger.record) (a := {})
    ⟨rfl, nofun, fun _ => rfl, rfl⟩ (fun _ _ _ _ h hstep => h.step id hstep) hrun
  exact hrecorded.executed.symm

-- ---------------------------------------------------------------------------
-- Runs
-- ---------------------------------------------------------------------------

/-- What `GlUniform` lets through of the values of its parameter types. -/
def WellTyped (u : UniformVariable) : Prop := Accepted u ∧ KnownType u

instance : DecidablePred WellTyped := fun u =>
  inferInstanceAs (Decidable (Accepted u ∧ u.type ∈ [(0 : Int32), 1, 2]))

structure KeepsRun (locations : GLuint → Bytes → Int32) (s : State) : Prop where
  keeps : Keeps locations s.rendering.rendering.uniformVariables s.rendering.assigned
  carries : Carries WellTyped s
  assigned : ∀ a ∈ s.rendering.assigned, WellTyped a.2

theorem KeepsRun.step {s s' : State} {l : Label} (id : UInt64) (h : KeepsRun locations s)
    (hl : Requests WellTyped l)
    (hstep : (pipeline (locationDriver locations) id).step s l = some s') : KeepsRun locations s' := by
  have hcarries := h.carries.step id hl hstep
  cases Pipeline.step_cases hstep with
  | update hupdate => exact ⟨h.keeps, hcarries, h.assigned⟩
  | commit => exact ⟨h.keeps, hcarries, h.assigned⟩
  | @execute c queue hqueue =>
    refine ⟨h.keeps.execute _ c, hcarries, fun a ha => ?_⟩
    rcases List.mem_append.mp ha with hold | hnew
    · exact h.assigned a hold
    · have hc := h.carries.queue c (hqueue ▸ List.mem_cons_self)
      cases c with
      | uniforms us =>
        obtain ⟨u, hu, rfl⟩ := List.mem_map.mp hnew
        exact hc u hu
      | _ => cases hnew
  | render m =>
    refine ⟨?_, hcarries, h.assigned⟩
    show Keeps locations
      (render (locationDriver locations) s.env.locks m s.rendering.thread).rendering.uniformVariables _
    rw [uniformVariables_render]
    exact h.keeps

theorem keepsRun_run {id : UInt64} {ls : List Label} {s : State} (hls : ∀ l ∈ ls, Requests WellTyped l)
    (hrun : (pipeline (locationDriver locations) id).machine.run ls = some s) :
    KeepsRun locations s := by
  have halong : (pipeline (locationDriver locations) id).machine.Along
      (fun _ l => Requests WellTyped l) ls := Machine.alongFrom_of_mem fun l hl _ => hls l hl
  apply halong.invariant _ (fun _ _ _ hkeeps hl hstep => hkeeps.step id hl hstep) hrun
  exact ⟨fun _ => rfl, ⟨nofun, nofun⟩, nofun⟩

theorem uniformCalls_of_wellTyped {u : UniformVariable} (hu : WellTyped u) (key : UInt32) :
    uniformCalls key { u with name := [], location := key } = [upload key u] := by
  unfold uniformCalls upload
  split
  · exact if_pos ⟨hu.2, mem_sizes hu.1.2.2.1 hu.1.2.2.2⟩
  · rfl

/-- Drawing uploads to each location the last value that was kept under it. -/
theorem KeepsRun.uploadsAt_eq {s : State} (h : KeepsRun locations s) {programId : GLuint}
    (hdraws : Draws s.env.locks s.rendering.rendering programId) (m : Matrices) (key : UInt32) :
    uploadsAt locations m s key =
      ((lastAt locations s.rendering.assigned key).map (upload key)).toList := by
  have huploads : uploads (s.rendering.render (locationDriver locations) s.env m).thread = _ :=
    uploads_render hdraws
  have hlocation : ∀ e ∈ s.rendering.rendering.uniformVariables.entries, ∀ c ∈ uniformCalls e.1 e.2,
      uploadLocation c = some e.1 := by
    intro e he c hc
    have hkept := h.keeps e.1
    rw [AList.mem_lookup_iff.mpr he] at hkept
    obtain ⟨u, -, hu⟩ := Option.map_eq_some_iff.mp hkept.symm
    rw [← hu] at hc
    unfold uniformCalls at hc
    split at hc
    · split at hc
      · obtain rfl := List.mem_singleton.mp hc
        rfl
      · cases hc
    · obtain rfl := List.mem_singleton.mp hc
      rfl
  rw [uploadsAt, huploads, List.drop_left]
  refine (AList.filter_flatMap_entries _ uniformCalls uploadLocation hlocation key).trans ?_
  rw [h.keeps key]
  cases hlast : lastAt locations s.rendering.assigned key with
  | none => rfl
  | some u =>
    obtain ⟨a, ha, rfl⟩ := Option.map_eq_some_iff.mp hlast
    have hmem := (List.mem_filter.mp (List.mem_of_getLast? ha)).1
    exact uniformCalls_of_wellTyped (h.assigned a hmem) key

/-- It is so when every value found a linked program in which its name has the location
that it has in the program drawn with. -/
theorem keptByName_of_same_locations {programId : GLuint}
    (hsame : ∀ a ∈ assignments, a.2.name ≠ [] ∧ ∃ linked, a.1 = some linked ∧
      locations linked a.2.name = locations programId a.2.name)
    (hunique : ∀ name name', 0 ≤ locations programId name →
      locations programId name = locations programId name' → name = name') :
    KeptByName locations programId assignments := by
  intro name _ hlocation
  have hfilter : (assignments.filter fun a =>
      keptAt locations a = some (locations programId name).toUInt32) =
        assignments.filter fun a => a.2.name = name := by
    apply List.filter_congr
    rintro ⟨found, u⟩ ha
    obtain ⟨hname, linked, rfl, hlinked⟩ := hsame _ ha
    have hkept : keptAt locations (some linked, u) = if locations programId u.name < 0 then none
        else some (locations programId u.name).toUInt32 := by
      rw [← hlinked, keptAt, if_neg hname]
    rw [hkept, decide_eq_decide]
    constructor
    · intro heq
      split at heq
      · cases heq
      · have hnumber := congrArg UInt32.toInt32 (Option.some.inj heq)
        rw [Int32.toInt32_toUInt32, Int32.toInt32_toUInt32] at hnumber
        exact (hunique name u.name hlocation hnumber.symm).symm
    · rintro rfl
      exact if_neg (Int32.not_lt.mpr hlocation)
  rw [lastAt, lastNamed, hfilter]

/-- Drawing uploads the values of all names to the variables of these names exactly if the
last value kept under the location of each name is the last one that was set for it. -/
theorem uploadsByName_iff_run {locations : GLuint → Bytes → Int32} {id : UInt64} {ls : List Label}
    {s : State} {programId : GLuint} (hls : ∀ l ∈ ls, Requests WellTyped l)
    (hrun : (pipeline (locationDriver locations) id).machine.run ls = some s)
    (hdraws : Draws s.env.locks s.rendering.rendering programId) (m : Matrices) :
    UploadsByName locations programId m s (executedValues locations id ls) ↔
      KeptByName locations programId (executedValues locations id ls) := by
  have hkeeps := keepsRun_run hls hrun
  unfold UploadsByName KeptByName
  simp only [hkeeps.uploadsAt_eq hdraws, assigned_eq_executedValues hrun]
  constructor
  · intro h name hname hlocation
    simpa using congrArg List.head? (h name hname hlocation)
  · intro h name hname hlocation
    rw [h name hname hlocation]

/-- Programs 1 and 2 have `a` at different locations, and where 1 has it, 2 has `b`. -/
def swappedLocations (programId : GLuint) (name : Bytes) : Int32 :=
  if name = [97] then if programId = 1 then 3 else 5
  else if name = [98] then if programId = 1 then 5 else 3
  else -1

def valueOfA : UniformVariable :=
  { name := [97], type := 2, col := 1, row := 1, count := 1, value := [0, 0, 128, 63] }

/-- A value is set for `a` with the first program, and drawn with. -/
def setUnderFirst : List Label :=
  [.update (.create 1 1), .update (.create 2 2), .update (.create 3 3), .update (.bindProgram (some 1)),
    .update (.bindVertexArray (some 3)), .update (.glDrawArrays 4 0 3), .update (.glUniform valueOfA),
    .commit, .execute, .execute, .execute, .execute]

theorem uploadsByName_setUnderFirst : ∃ s,
    (pipeline (locationDriver swappedLocations) 1).machine.run setUnderFirst = some s ∧
      executedValues swappedLocations 1 setUnderFirst = [(some 1, valueOfA)] ∧
      (UploadsByName swappedLocations 1 ⟨[], [], [], [], []⟩ s
          (executedValues swappedLocations 1 setUnderFirst) ↔
        KeptByName swappedLocations 1 (executedValues swappedLocations 1 setUnderFirst)) := by
  obtain ⟨s, hs⟩ : ∃ s,
      (pipeline (locationDriver swappedLocations) 1).machine.run setUnderFirst = some s := ⟨_, rfl⟩
  have hdraws : Draws s.env.locks s.rendering.rendering 1 := by
    cases hs
    exact ⟨nofun, ⟨3, rfl, by decide⟩, rfl, by decide, nofun⟩
  exact ⟨s, hs, rfl, uploadsByName_iff_run (by decide) hs hdraws _⟩

/-- Then the second program is bound. -/
def drawnWithSecond : List Label := setUnderFirst ++ [.update (.bindProgram (some 2)), .commit, .execute]

/-- The value of `a` is uploaded to the location of `b`, and none to that of `a`. -/
theorem not_uploadsByName_drawnWithSecond : ¬ ∀ (locations : GLuint → Bytes → Int32) (id : UInt64)
    (ls : List Label) (s : State) (programId : GLuint) (m : Matrices),
      (∀ l ∈ ls, Requests WellTyped l) →
      (pipeline (locationDriver locations) id).machine.run ls = some s →
      Draws s.env.locks s.rendering.rendering programId →
      UploadsByName locations programId m s (executedValues locations id ls) := by
  intro h
  have hname := h swappedLocations 1 drawnWithSecond _ 2 ⟨[], [], [], [], []⟩ (by decide) rfl
    ⟨nofun, ⟨3, rfl, by decide⟩, rfl, by decide, nofun⟩ [97] nofun (by decide)
  have hcalls : ([] : List GlCall) = [upload 5 valueOfA] := hname
  cases hcalls

end ZenRemote.Client.GlBaseTechnique
