-- SUMMARY: What the rendering thread does while requests are handled is what it does alone.
import ZenRemote.Client.Frame

/-!
# Frames apart from requests

Requests that delete nothing can be left out of a run: the rendering thread then issues the
same GL calls and leaves the same rendering states, as long as it executes no closure but
those that have been committed before. New resources are below none of its pointers.
-/

namespace ZenRemote.Client.Frames

/-- A step of the rendering thread. -/
def Label.isRendering : Label → Bool
  | .executeNext | .render _ | .next => true
  | .request _ | .newSession => false

/-- The update thread deletes nothing and replaces no session. -/
def Label.Deletes : Label → Prop
  | .request r => r.deletes ≠ none
  | .newSession => True
  | .executeNext | .render _ | .next => False

/-- A state against one in which the rendering thread has worked alone. -/
structure Follows (s t : State) : Prop where
  inv : Inv t
  frame : s.frame = t.frame
  rendering : s.pool.rendering = t.pool.rendering
  carried : Carried t.pool.heap s.pool.heap
  queue : UpdateQueue.committed t.pool.updateRenderingQueue.queue <+: s.pool.updateRenderingQueue.queue
  commitCount : t.pool.updateRenderingQueue.commitCount ≤ s.pool.updateRenderingQueue.commitCount
  objects : ∃ new, s.pool.virtualObjects.owned = t.pool.virtualObjects.owned ++ new ∧
    ∀ e ∈ new, t.pool.heap.next ≤ e.2
  removeSet : s.pool.virtualObjects.removeSet = t.pool.virtualObjects.removeSet

variable {gl : Driver} {s s' t t' : State} {l : Label}

theorem Follows.refl (h : Inv s) : Follows s s where
  inv := h
  frame := rfl
  rendering := rfl
  carried := ⟨.refl _, fun _ _ h => h⟩
  queue := List.rdropWhile_prefix _ _
  commitCount := Nat.le_refl _
  objects := ⟨[], (List.append_nil _).symm, nofun⟩
  removeSet := rfl

/-- The update thread handles a request. -/
theorem Follows.request (h : Follows s t) {pool : PoolState} (hadds : s.pool.Adds pool) :
    Follows { s with pool := pool } t where
  inv := h.inv
  frame := h.frame
  rendering := hadds.grows.rendering.trans h.rendering
  carried := ⟨h.carried.later.trans hadds.carried.later,
    fun k a halive => hadds.carried.survives k a (h.carried.survives k a halive)⟩
  queue := h.queue.trans hadds.grows.queue
  commitCount := Nat.le_trans h.commitCount hadds.commitCount
  objects := by
    obtain ⟨new, howned, hnew⟩ := h.objects
    obtain ⟨new', howned', hnew'⟩ := hadds.objects
    refine ⟨new ++ new', by rw [howned', howned, List.append_assoc], fun e he => ?_⟩
    cases List.mem_append.mp he with
    | inl he => exact hnew e he
    | inr he => exact Nat.le_trans h.carried.later.next_le (hnew' e he)
  removeSet := hadds.removeSet.trans h.removeSet

-- ---------------------------------------------------------------------------
-- Closures
-- ---------------------------------------------------------------------------

theorem execute_carried {p q : PoolState} (h : p.Pointed) (hh' : Carried p.heap q.heap)
    {c : Closure} (hc : Below p.heap.next c.command.pointers) :
    c.execute gl q.heap p.rendering = c.execute gl p.heap p.rendering := by
  have hknown : p.rendering.Known p.heap.next := fun a =>
    (h.rendering .glBaseTechniques a).of_mem (mem_pointers_renderingState.mpr (.inr (.inl rfl)))
  exact ((Closure.execute_eq_iff hh'.later hknown (hc.of_subset c.captured_subset_pointers)).mpr
    fun u _ => hh'.survives u.1 u.2).symm

/-- Nothing is committed behind the last marker. -/
theorem exists_uncommitted (queue : List (CommandInfo Closure)) :
    ∃ rest, queue = UpdateQueue.committed queue ++ rest ∧ UpdateQueue.commits rest = 0 := by
  obtain ⟨rest, hrest⟩ := List.rdropWhile_prefix (fun e : CommandInfo Closure => !e.isCommit) queue
  change UpdateQueue.committed queue ++ rest = queue at hrest
  have hcommits : UpdateQueue.commits (UpdateQueue.committed queue ++ rest) =
      UpdateQueue.commits (UpdateQueue.committed queue) + UpdateQueue.commits rest := List.countP_append
  rw [hrest, UpdateQueue.commits_committed] at hcommits
  exact ⟨rest, hrest.symm, by omega⟩

theorem committed_tail {queue front : List (CommandInfo Closure)} {e : CommandInfo Closure}
    (h : UpdateQueue.committed queue = e :: front) :
    ∃ rest, queue = e :: rest ∧ UpdateQueue.committed rest = front := by
  obtain ⟨rest, hqueue, hrest⟩ := exists_uncommitted queue
  have hwhole := UpdateQueue.wholeCommits_committed queue
  rw [h] at hqueue hwhole
  refine ⟨front ++ rest, hqueue, UpdateQueue.committed_append ?_ hrest⟩
  cases front with
  | nil => exact nofun
  | cons e' front =>
    rw [UpdateQueue.WholeCommits, List.getLast?_cons_cons] at hwhole
    exact hwhole

theorem commits_pos {queue : List (CommandInfo Closure)} (h : UpdateQueue.committed queue ≠ []) :
    0 < UpdateQueue.commits queue := by
  apply Nat.pos_of_ne_zero
  intro hzero
  have hnone : UpdateQueue.WholeCommits ([] : List (CommandInfo Closure)) := nofun
  exact h (UpdateQueue.committed_append hnone hzero)

/-- What has been committed in both can be executed in both. -/
theorem Follows.executeNext (h : Follows s t) {p : PoolState} (hs : s.pool.executeNext gl = some p)
    {e : CommandInfo Closure} {front : List (CommandInfo Closure)}
    (hfront : UpdateQueue.committed t.pool.updateRenderingQueue.queue = e :: front) :
    ∃ q, t.pool.executeNext gl = some q ∧ UpdateQueue.committed q.updateRenderingQueue.queue = front ∧
      (Inv { t with pool := q } → Follows { s with pool := p } { t with pool := q }) := by
  obtain ⟨rest, hqueue, hrest⟩ := committed_tail hfront
  have hcount : t.pool.updateRenderingQueue.commitCount ≠ 0 := by
    rw [h.inv.counted]
    exact (commits_pos (hfront ▸ List.cons_ne_nil _ _)).ne'
  obtain ⟨tail, htail⟩ := h.queue
  rw [hfront, List.cons_append] at htail
  cases e with
  | commit =>
    refine ⟨{ t.pool with updateRenderingQueue := ⟨rest, t.pool.updateRenderingQueue.commitCount - 1⟩ },
      by simp only [PoolState.executeNext, if_neg hcount, hqueue], hrest, fun hinv => ?_⟩
    rcases PoolState.executeNext_cases hs with ⟨rest', hhead, rfl⟩ | ⟨c, rest', hhead, rfl⟩
    · obtain ⟨-, rfl⟩ := List.cons.inj (htail.trans hhead)
      exact { h with
        inv := hinv
        queue := ⟨tail, congrArg (· ++ tail) hrest⟩
        commitCount := Nat.sub_le_sub_right h.commitCount 1 }
    · cases (List.cons.inj (htail.trans hhead)).1
  | command c =>
    refine ⟨{ t.pool with
        updateRenderingQueue := { t.pool.updateRenderingQueue with queue := rest }
        rendering := c.execute gl t.pool.heap t.pool.rendering },
      by simp only [PoolState.executeNext, if_neg hcount, hqueue], hrest, fun hinv => ?_⟩
    rcases PoolState.executeNext_cases hs with ⟨rest', hhead, rfl⟩ | ⟨c', rest', hhead, rfl⟩
    · cases (List.cons.inj (htail.trans hhead)).1
    · obtain ⟨hc, rfl⟩ := List.cons.inj (htail.trans hhead)
      cases hc
      have hpointers := (h.inv.pointed.closures c (hqueue ▸ List.mem_cons_self)).2
      refine { h with inv := hinv, rendering := ?_, queue := ⟨tail, congrArg (· ++ tail) hrest⟩ }
      show c.execute gl s.pool.heap s.pool.rendering = c.execute gl t.pool.heap t.pool.rendering
      rw [h.rendering, execute_carried h.inv.pointed h.carried hpointers]

-- ---------------------------------------------------------------------------
-- Frames
-- ---------------------------------------------------------------------------

/-- A virtual object that the other state does not have has never been committed. -/
theorem Follows.rendered (h : Follows s t) : s.pool.rendered = t.pool.rendered := by
  obtain ⟨new, howned, hnew⟩ := h.objects
  have hnone : ((new.filter fun e => e.1 ∉ t.pool.virtualObjects.removeSet).map Prod.snd).filter
      (fun a => VirtualObject.RenderingState.commited (t.pool.rendering.states .virtualObjects a)) = [] := by
    apply List.filter_eq_nil_iff.mpr
    intro a ha
    obtain ⟨e, he, rfl⟩ := List.mem_map.mp ha
    rw [h.inv.pointed.initial .virtualObjects e.2 (hnew e (List.mem_of_mem_filter he))]
    exact Bool.false_ne_true
  unfold PoolState.rendered LoopContainer.applyChanges
  dsimp only
  rw [howned, h.removeSet, h.rendering, List.filter_append, List.map_append, List.filter_append, hnone,
    List.append_nil]

theorem get_forEachVirtualObject {p : PoolState} {k : Kind} {a : Nat} :
    p.forEachVirtualObject.heap.get k a =
      if a ∈ p.mergeNew.virtualObjects.removed.map Prod.snd then none else p.heap.get k a := by
  have hobjects : p.forEachVirtualObject.heap.objects a = _ :=
    PoolState.objects_foldl_destroy (s := p.mergeNew) (p.mergeNew.virtualObjects.removed.map Prod.snd)
  split
  · rename_i hmem
    rw [if_pos hmem] at hobjects
    exact Heap.get_eq_none_of_objects hobjects
  · rename_i hmem
    rw [if_neg hmem] at hobjects
    exact Heap.get_congr hobjects

/-- The traversals remove the same of what both have. -/
theorem Follows.mem_removed_iff (h : Follows s t) {a : Nat} (ha : a < t.pool.heap.next) :
    a ∈ s.pool.mergeNew.virtualObjects.removed.map Prod.snd ↔
      a ∈ t.pool.mergeNew.virtualObjects.removed.map Prod.snd := by
  obtain ⟨new, howned, hnew⟩ := h.objects
  have hold : a ∉ (new.filter fun e => e.1 ∈ t.pool.virtualObjects.removeSet).map Prod.snd := by
    intro hmem
    obtain ⟨e, he, rfl⟩ := List.mem_map.mp hmem
    exact Nat.not_lt.mpr (hnew e (List.mem_of_mem_filter he)) ha
  -- what has been merged is all that the container owns
  show a ∈ (s.pool.virtualObjects.owned.filter fun e => e.1 ∈ s.pool.virtualObjects.removeSet).map _ ↔
    a ∈ (t.pool.virtualObjects.owned.filter fun e => e.1 ∈ t.pool.virtualObjects.removeSet).map _
  rw [howned, h.removeSet, List.filter_append, List.map_append, List.mem_append, or_iff_left hold]

theorem Follows.carried_forEach (h : Follows s t) :
    Carried t.pool.forEachVirtualObject.heap s.pool.forEachVirtualObject.heap := by
  refine ⟨⟨?_, fun k a ha hgone => ?_⟩, fun k a halive => ?_⟩
  · rw [PoolState.next_forEachVirtualObject, PoolState.next_forEachVirtualObject]
    exact h.carried.later.next_le
  · rw [PoolState.next_forEachVirtualObject] at ha
    rw [get_forEachVirtualObject] at hgone ⊢
    split
    · rfl
    · rename_i hmem
      rw [if_neg (fun hmem' => hmem ((h.mem_removed_iff ha).mpr hmem'))] at hgone
      exact h.carried.later.gone k a ha hgone
  · rw [get_forEachVirtualObject] at halive ⊢
    split at halive
    · cases halive
    · rename_i hmem
      obtain ⟨x, hx⟩ := Option.isSome_iff_exists.mp halive
      rw [if_neg (fun hmem' => hmem ((h.mem_removed_iff (Heap.lt_next_of_get hx)).mp hmem'))]
      exact h.carried.survives k a halive

/-- The closures of the destructors are not committed. -/
theorem committed_forEachVirtualObject (p : PoolState) :
    UpdateQueue.committed p.forEachVirtualObject.updateRenderingQueue.queue =
      UpdateQueue.committed p.updateRenderingQueue.queue := by
  obtain ⟨pushed, hpushed⟩ := (PoolState.grows_forEachVirtualObject p).queue
  obtain ⟨rest, hqueue, hrest⟩ := exists_uncommitted p.updateRenderingQueue.queue
  have hcommits := (PoolState.pushes_forEachVirtualObject p).commits
  rw [← hpushed, UpdateQueue.commits, List.countP_append, Nat.add_eq_left] at hcommits
  rw [← hpushed, hqueue, List.append_assoc, UpdateQueue.committed_append
    (UpdateQueue.wholeCommits_committed _), ← hqueue]
  rw [UpdateQueue.commits, List.countP_append, hcommits]
  exact hrest

theorem Follows.render (h : Follows s t) (camera : Camera)
    (hinv : Inv ⟨t.pool.forEachVirtualObject, some { camera := camera, objects := t.pool.rendered }⟩) :
    Follows ⟨s.pool.forEachVirtualObject, some { camera := camera, objects := s.pool.rendered }⟩
      ⟨t.pool.forEachVirtualObject, some { camera := camera, objects := t.pool.rendered }⟩ where
  inv := hinv
  frame := by rw [h.rendered]
  rendering := by
    have hs := (PoolState.grows_forEachVirtualObject s.pool).rendering
    have ht := (PoolState.grows_forEachVirtualObject t.pool).rendering
    exact hs.trans (h.rendering.trans ht.symm)
  carried := h.carried_forEach
  queue := by
    rw [committed_forEachVirtualObject]
    exact h.queue.trans (PoolState.grows_forEachVirtualObject s.pool).queue
  commitCount := by
    rw [(PoolState.pushes_forEachVirtualObject t.pool).commitCount,
      (PoolState.pushes_forEachVirtualObject s.pool).commitCount]
    exact h.commitCount
  objects := by
    obtain ⟨new, howned, hnew⟩ := h.objects
    refine ⟨new.filter fun e => e.1 ∉ t.pool.virtualObjects.removeSet, ?_, fun e he => ?_⟩
    · have hkept : ∀ c : LoopContainer, c.applyChanges.owned = c.owned.filter fun e => e.1 ∉ c.removeSet :=
        fun _ => List.append_nil _
      rw [PoolState.virtualObjects_forEachVirtualObject, PoolState.virtualObjects_forEachVirtualObject,
        hkept, hkept, howned, h.removeSet, List.filter_append]
    · rw [PoolState.next_forEachVirtualObject]
      exact hnew e (List.mem_of_mem_filter he)
  removeSet := rfl

/-- An iteration changes rendering states at most. -/
theorem exists_rendering_next (gl : Driver) (p : PoolState) (f : Frame) :
    ∃ R, (f.next gl p).1 = { p with rendering := R } := by
  have hout := f.iterated_next gl p
  generalize f.next gl p = out at hout
  cases hout with
  | @render u q rest _ _ _ => exact PoolState.exists_rendering_renderRenderingUnit gl p u.matrices q
  | forget _ _ _ => exact ⟨_, rfl⟩
  | close _ _ | openObject _ _ | finish _ _ => exact ⟨p.rendering, rfl⟩

/-- An iteration sees the same. -/
theorem next_carried (gl : Driver) {p q : PoolState} {f : Frame} (hp : p.Pointed) (hf : f.Sound p)
    (hh' : Carried p.heap q.heap) (hrendering : q.rendering = p.rendering) :
    (f.next gl q).2 = (f.next gl p).2 ∧ (f.next gl q).1.rendering = (f.next gl p).1.rendering := by
  unfold Frame.next
  cases hunits : f.units with
  | none =>
    dsimp only
    cases f.objects with
    | nil => exact ⟨rfl, hrendering⟩
    | cons a objects =>
      dsimp only [Frame.openObject]
      rw [hrendering]
      exact ⟨rfl, rfl⟩
  | some u =>
    dsimp only
    cases hrest : u.rest with
    | nil => exact ⟨rfl, hrendering⟩
    | cons unit rest =>
      have hunit : Below p.heap.next [unit] := by
        have hall := hp.rendering .virtualObjects u.object
        rw [RenderingState.pointers, hf.units u hunits, hrest] at hall
        exact hall.of_mem (List.mem_append_right _ List.mem_cons_self)
      dsimp only
      rw [hh'.isSome_lock hunit]
      split
      · exact ⟨rfl, PoolState.rendering_renderRenderingUnit_carried hp hh' hrendering hunit⟩
      · refine ⟨rfl, ?_⟩
        unfold PoolState.setRenderingUnits
        dsimp only
        rw [hrendering]

theorem Follows.next (h : Follows s t) {f : Frame} (hframe : t.frame = some f)
    (hinv : Inv ⟨(f.next gl t.pool).1, (f.next gl t.pool).2⟩) :
    Follows ⟨(f.next gl s.pool).1, (f.next gl s.pool).2⟩ ⟨(f.next gl t.pool).1, (f.next gl t.pool).2⟩ := by
  obtain ⟨hsame, hrendering⟩ := next_carried gl h.inv.pointed (h.inv.frame f hframe) h.carried h.rendering
  obtain ⟨R, hs⟩ := exists_rendering_next gl s.pool f
  obtain ⟨R', ht⟩ := exists_rendering_next gl t.pool f
  rw [hs, ht] at hrendering
  rw [ht] at hinv
  rw [hs, ht, hsame]
  exact { h with inv := hinv, frame := rfl, rendering := hrendering }

-- ---------------------------------------------------------------------------
-- Runs
-- ---------------------------------------------------------------------------

/-- A closure is executed, or the marker behind a group is popped. -/
def Label.isExecuteNext : Label → Bool
  | .executeNext => true
  | .request _ | .newSession | .render _ | .next => false

/-- The steps `ls` are left, of which those that execute find what has been committed. -/
structure Ahead (ls : List Label) (s t : State) : Prop where
  follows : Follows s t
  keeps : ∀ l ∈ ls, ¬ l.Deletes
  committed : ls.countP Label.isExecuteNext ≤
    (UpdateQueue.committed t.pool.updateRenderingQueue.queue).length

theorem Ahead.outside {ls : List Label} (h : Ahead (l :: ls) s t) (hl : l.isRendering = false)
    (hstep : (machine gl).step s l = some s') : Ahead ls s' t := by
  have hkeeps := List.forall_mem_cons.mp h.keeps
  have hcount : (l :: ls).countP Label.isExecuteNext = ls.countP Label.isExecuteNext := by
    apply List.countP_cons_of_neg
    cases l with
    | request _ | newSession => exact Bool.false_ne_true
    | executeNext | render _ | next => cases hl
  refine ⟨?_, hkeeps.2, hcount ▸ h.committed⟩
  cases step_iff.mp hstep with
  | request hr => exact h.follows.request (PoolState.adds_handle (not_not.mp hkeeps.1) hr)
  | newSession _ => exact absurd trivial hkeeps.1
  | executeNext _ _ | render _ _ | next _ => cases hl

theorem Ahead.inside {ls : List Label} (h : Ahead (l :: ls) s t) (hl : l.isRendering)
    (hstep : (machine gl).step s l = some s') : ∃ t', (machine gl).step t l = some t' ∧ Ahead ls s' t' := by
  have hkeeps := (List.forall_mem_cons.mp h.keeps).2
  have hcommitted := h.committed
  cases step_iff.mp hstep with
  | request _ | newSession _ => cases hl
  | executeNext hframe hs =>
    rw [List.countP_cons_of_pos (by rfl)] at hcommitted
    cases hfront : UpdateQueue.committed t.pool.updateRenderingQueue.queue with
    | nil =>
      rw [hfront] at hcommitted
      cases hcommitted
    | cons e front =>
      obtain ⟨q, hq, hrest, hfollows⟩ := h.follows.executeNext hs hfront
      have hstep' := step_iff.mpr (Stepped.executeNext (h.follows.frame.symm.trans hframe) hq)
      refine ⟨_, hstep', hfollows (h.follows.inv.step hstep'), hkeeps, ?_⟩
      rw [hfront] at hcommitted
      rw [hrest]
      exact Nat.le_of_succ_le_succ hcommitted
  | render hframe camera =>
    have hstep' : (machine gl).step t (.render camera) = some _ :=
      step_iff.mpr (.render (h.follows.frame.symm.trans hframe) camera)
    refine ⟨_, hstep', h.follows.render camera (h.follows.inv.step hstep'), hkeeps, ?_⟩
    rw [committed_forEachVirtualObject]
    exact (List.countP_cons_of_neg Bool.false_ne_true).symm.le.trans hcommitted
  | @next f hframe =>
    have hframe' : t.frame = some f := h.follows.frame.symm.trans hframe
    have hstep' : (machine gl).step t .next = some _ := step_iff.mpr (.next hframe')
    refine ⟨_, hstep', h.follows.next hframe' (h.follows.inv.step hstep'), hkeeps, ?_⟩
    obtain ⟨R, heq⟩ := exists_rendering_next gl t.pool f
    rw [heq]
    exact (List.countP_cons_of_neg Bool.false_ne_true).symm.le.trans hcommitted

theorem Ahead.run {ls : List Label} (h : Ahead ls s t) (hrun : (machine gl).runFrom s ls = some s') :
    ∃ t', (machine gl).runFrom t (ls.filter Label.isRendering) = some t' ∧ Ahead [] s' t' :=
  Machine.runFrom_filter (fun _ _ _ _ _ h hl hstep => h.outside hl hstep)
    (fun _ _ _ _ _ h hl hstep => h.inside hl hstep) h hrun

/-- Requests that delete nothing do not show: the rendering thread can take its steps alone,
and issues the same GL calls. It may execute no more than has been committed before. -/
theorem rendersAlone_run {before ls : List Label} (hreach : (machine gl).run before = some s)
    (hkeeps : ∀ l ∈ ls, ¬ l.Deletes)
    (hcommitted : ls.countP Label.isExecuteNext ≤
      (UpdateQueue.committed s.pool.updateRenderingQueue.queue).length)
    (hrun : (machine gl).runFrom s ls = some s') :
    ∃ t, (machine gl).runFrom s (ls.filter Label.isRendering) = some t ∧
      t.pool.rendering = s'.pool.rendering ∧ t.frame = s'.frame := by
  have hahead : Ahead ls s s := ⟨.refl (inv_run hreach), hkeeps, hcommitted⟩
  obtain ⟨t, halone, ht⟩ := hahead.run hrun
  exact ⟨t, halone, ht.follows.rendering.symm, ht.follows.frame.symm⟩

/-- A driver that names what is made by the number of calls. A program can be linked if it
has a shader, and then has its variables at locations by the lengths of their names. -/
def numberingDriver : Driver where
  name calls _ := calls.length.toUInt32 + 1
  value calls c :=
    match c with
    | .getUniformLocation programId name =>
      if .linkProgram programId ∈ calls then name.length.toInt32 else -1
    | .getProgramiv programId .linkStatus =>
      if calls.any fun
        | .attachShader attached _ => attached = programId
        | _ => false
      then 1 else 0
    | _ => 1

def colour : UniformVariable :=
  { name := [117, 67, 111, 108, 111, 117, 114], type := 2, col := 1, row := 1, count := 1, value := [0, 0, 128, 63] }

/-- A triangle of one virtual object. Another unit of the object and one of the two textures
are gone when the triangle is drawn. -/
def triangleCommitted : List Label :=
  [.request (.virtualObjectNew 1), .request (.renderingUnitNew 2 1), .request (.renderingUnitNew 3 1),
    .request (.glBaseTechniqueNew 4 3), .request (.glShaderNew 5 [] 35633), .request (.glShaderNew 6 [] 35632),
    .request (.glProgramNew 7), .request (.glAttachShader 7 5), .request (.glAttachShader 7 6),
    .request (.glLinkProgram 7), .request (.bindProgram 4 7), .request (.glVertexArrayNew 8),
    .request (.glEnableVertexAttribArray 8 0), .request (.bindVertexArray 4 8), .request (.glSamplerNew 9),
    .request (.glTextureNew 10), .request (.bindTexture 4 0 [116, 101, 120] 10 3553 9),
    .request (.glTextureNew 11),
    .request (.glTexImage2D 11 ⟨3553, 0, 6408, 1, 1, 0, 6408, 5121⟩ [255, 0, 0, 255]),
    .request (.bindTexture 4 1 [109, 97, 112, 115, 49, 50, 51, 52] 11 3553 9),
    .request (.glUniform 4 colour), .request (.glDrawArrays 4 4 0 3), .request (.virtualObjectCommit 1),
    .request (.renderingUnitDelete 2), .request (.glTextureDelete 10)]

/-- It is drawn while another unit is added to it. -/
def drawnMeanwhile : List Label :=
  List.replicate 16 .executeNext ++ [.request (.virtualObjectNew 12),
    .render fun _ _ => ⟨[], [], [], [], []⟩, .next, .next, .request (.renderingUnitNew 13 1), .next]

theorem rendersAlone_triangle : ∃ s s', (machine numberingDriver).run triangleCommitted = some s ∧
    (machine numberingDriver).runFrom s drawnMeanwhile = some s' ∧
    .drawArrays 4 0 3 ∈ s'.pool.rendering.calls ∧
    ∃ t, (machine numberingDriver).runFrom s (drawnMeanwhile.filter Label.isRendering) = some t ∧
      t.pool.rendering = s'.pool.rendering ∧ t.frame = s'.frame := by
  have hreach : (machine numberingDriver).run triangleCommitted = some _ := rfl
  have hkeeps : ∀ l ∈ drawnMeanwhile, ¬ l.Deletes := by
    simp [drawnMeanwhile, Label.Deletes, Request.deletes]
  exact ⟨_, _, rfl, rfl, by decide, rendersAlone_run hreach hkeeps (by decide) rfl⟩

end ZenRemote.Client.Frames
