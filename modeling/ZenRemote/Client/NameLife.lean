-- SUMMARY: The life of GL names over whole runs: every name is deleted once, when its resource has gone, and not used after that.
import ZenRemote.Client.GlNames

/-!
# The life of names

The destructor of a resource pushes the closure that deletes its name behind all other closures
of the resource. The rendering thread comes to it, or the queue is destroyed and cancels it, which
deletes the name as well. Only a name that a failed compilation or linking has left behind is
known to no one.
-/

namespace ZenRemote.Client

-- ---------------------------------------------------------------------------
-- Resources and their closures
-- ---------------------------------------------------------------------------

/-- The resource has been destroyed, and none of its closures is left. -/
def Finished (h : Heap Object) (cs : List Closure) (k : Kind) (a : Nat) : Prop :=
  h.get k a = none ∧ ∀ c ∈ cs, c.resource ≠ (k, a)

/-- When a resource has been destroyed, the closure of its destructor is the last of its closures. -/
structure Queued (h : Heap Object) (cs : List Closure) : Prop where
  below : ∀ c ∈ cs, c.address < h.next
  gone : ∀ c ∈ cs, c.isDelete → h.get c.kind c.address = none
  last : cs.Pairwise fun d c => d.isDelete → c.resource ≠ d.resource
  deleted : ∀ c ∈ cs, h.get c.kind c.address = none → ∃ d ∈ cs, d.isDelete ∧ d.resource = c.resource

variable {h h' : Heap Object} {c : Closure} {cs cs' : List Closure} {k : Kind} {a : Nat}

theorem queued_nil (h : Heap Object) : Queued h [] := ⟨nofun, nofun, List.Pairwise.nil, nofun⟩

/-- The closure at the front is popped. -/
theorem Queued.pop (hcs : Queued h (c :: cs)) : Queued h cs where
  below := fun d hd => hcs.below d (List.mem_cons_of_mem _ hd)
  gone := fun d hd => hcs.gone d (List.mem_cons_of_mem _ hd)
  last := hcs.last.of_cons
  deleted := by
    intro d hd hgone
    obtain ⟨e, he, hdelete, hresource⟩ := hcs.deleted d (List.mem_cons_of_mem _ hd) hgone
    rcases List.mem_cons.mp he with rfl | he
    · exact absurd hresource.symm (List.rel_of_pairwise_cons hcs.last hd hdelete)
    · exact ⟨e, he, hdelete, hresource⟩

/-- Unless it is a destructor's, it was not the last one of a destroyed resource. -/
theorem Queued.finished_pop (hcs : Queued h (c :: cs)) (hc : ¬ c.isDelete) :
    Finished h cs k a ↔ Finished h (c :: cs) k a := by
  refine and_congr_right fun hgone => ⟨fun hnone => ?_, fun hnone d hd => hnone d (List.mem_cons_of_mem _ hd)⟩
  intro d hd hd'
  rcases List.mem_cons.mp hd with rfl | hd
  · cases hd'
    obtain ⟨e, he, hdelete, hresource⟩ := hcs.deleted d List.mem_cons_self hgone
    rcases List.mem_cons.mp he with rfl | he
    · exact hc hdelete
    · exact hnone e he hresource
  · exact hnone d hd hd'

theorem Queued.finished_pop_delete (hcs : Queued h (c :: cs)) (hc : c.isDelete) :
    Finished h cs k a ↔ Finished h (c :: cs) k a ∨ (k, a) = c.resource := by
  constructor
  · rintro ⟨hgone, hnone⟩
    by_cases hresource : (k, a) = c.resource
    · exact .inr hresource
    · refine .inl ⟨hgone, fun d hd => ?_⟩
      rcases List.mem_cons.mp hd with rfl | hd
      · exact Ne.symm hresource
      · exact hnone d hd
  · rintro (⟨hgone, hnone⟩ | hresource)
    · exact ⟨hgone, fun d hd => hnone d (List.mem_cons_of_mem _ hd)⟩
    · cases hresource
      exact ⟨hcs.gone c List.mem_cons_self hc, fun d hd => List.rel_of_pairwise_cons hcs.last hd hc⟩

theorem not_finished_front : ¬ Finished h (c :: cs) c.kind c.address :=
  fun hfinished => hfinished.2 c List.mem_cons_self rfl

/-- What the update thread does to the heap and the closures: no resource is finished by it. -/
structure Onward (h : Heap Object) (cs : List Closure) (h' : Heap Object) (cs' : List Closure) : Prop where
  queued : Queued h' cs'
  next : h.next ≤ h'.next
  finished : ∀ k, ∀ a < h.next, Finished h' cs' k a ↔ Finished h cs k a

theorem Onward.refl (hcs : Queued h cs) : Onward h cs h cs := ⟨hcs, Nat.le_refl _, fun _ _ _ => Iff.rfl⟩

theorem Onward.trans {h'' : Heap Object} {cs'' : List Closure} (hfst : Onward h cs h' cs')
    (hsnd : Onward h' cs' h'' cs'') : Onward h cs h'' cs'' where
  queued := hsnd.queued
  next := Nat.le_trans hfst.next hsnd.next
  finished := fun k a ha =>
    (hsnd.finished k a (Nat.lt_of_lt_of_le ha hfst.next)).trans (hfst.finished k a ha)

/-- Closures are pushed for a resource that is alive. -/
theorem Queued.push (hcs : Queued h cs) {x : Object k} (hx : h.get k a = some x) (new : List (Command k))
    (hnew : ∀ c ∈ new, ¬ c.isDelete) : Onward h cs h (cs ++ new.map fun c => ⟨k, a, c⟩) := by
  have halive : ∀ c ∈ new.map fun c => (⟨k, a, c⟩ : Closure), c.resource = (k, a) ∧ ¬ c.isDelete := by
    intro c hc
    obtain ⟨command, hcommand, rfl⟩ := List.mem_map.mp hc
    exact ⟨rfl, hnew command hcommand⟩
  have hget : ∀ c : Closure, c.resource = (k, a) → h.get c.kind c.address ≠ none := by
    rintro ⟨k, a, c⟩ ⟨⟩
    exact Option.ne_none_iff_exists'.mpr ⟨x, hx⟩
  refine ⟨⟨?_, ?_, ?_, ?_⟩, Nat.le_refl _, ?_⟩
  · intro c hc
    rcases List.mem_append.mp hc with hc | hc
    · exact hcs.below c hc
    · rw [(Prod.mk.inj (halive c hc).1).2]
      exact Heap.lt_next_of_get hx
  · intro c hc hdelete
    rcases List.mem_append.mp hc with hc | hc
    · exact hcs.gone c hc hdelete
    · exact absurd hdelete (halive c hc).2
  · refine List.pairwise_append.mpr ⟨hcs.last, ?_, fun d hd c hc hdelete hresource => ?_⟩
    · exact List.pairwise_of_forall_mem_list fun d hd _ _ hdelete => absurd hdelete (halive d hd).2
    · exact hget d (hresource.symm.trans (halive c hc).1) (hcs.gone d hd hdelete)
  · intro c hc hgone
    rcases List.mem_append.mp hc with hc | hc
    · obtain ⟨d, hd, hrest⟩ := hcs.deleted c hc hgone
      exact ⟨d, List.mem_append_left _ hd, hrest⟩
    · exact absurd hgone (hget c (halive c hc).1)
  · intro k' a' _
    refine and_congr_right fun hgone => ⟨fun hnone c hc => hnone c (List.mem_append_left _ hc), ?_⟩
    intro hnone c hc heq
    rcases List.mem_append.mp hc with hc | hc
    · exact hnone c hc heq
    · cases heq.symm.trans (halive c hc).1
      exact absurd (hx.symm.trans hgone) nofun

/-- The same resources are alive. -/
theorem Queued.of_alive (hcs : Queued h cs) (hnext : h'.next = h.next)
    (hget : ∀ k a, h'.get k a = none ↔ h.get k a = none) : Onward h cs h' cs where
  queued := ⟨fun c hc => hnext ▸ hcs.below c hc, fun c hc hdelete => (hget _ _).mpr (hcs.gone c hc hdelete),
    hcs.last, fun c hc hgone => hcs.deleted c hc ((hget _ _).mp hgone)⟩
  next := Nat.le_of_eq hnext.symm
  finished := fun k a _ => and_congr_left' (hget k a)

theorem Queued.modify (hcs : Queued h cs) (f : Object k → Object k) : Onward h cs (h.modify k f a) cs := by
  refine hcs.of_alive (Heap.next_modify f) fun k' b => ?_
  by_cases hk : k = k'
  · subst hk
    by_cases hb : b = a
    · rw [hb, Heap.get_modify_self, Option.map_eq_none_iff]
    · rw [Heap.get_modify_of_ne f hb]
  · rw [Heap.get_modify_of_ne_kind f hk]

theorem Queued.alloc (hcs : Queued h cs) (x : Object k) : Onward h cs (h.alloc k x) cs := by
  have hget : ∀ k', ∀ a < h.next, (h.alloc k x).get k' a = h.get k' a :=
    fun k' a ha => Heap.get_alloc_of_ne x (Nat.ne_of_lt ha)
  refine ⟨⟨fun c hc => Nat.lt_succ_of_lt (hcs.below c hc), fun c hc hdelete => ?_, hcs.last,
    fun c hc hgone => ?_⟩, Nat.le_succ _, fun k' a ha => ?_⟩
  · rw [hget _ _ (hcs.below c hc)]
    exact hcs.gone c hc hdelete
  · rw [hget _ _ (hcs.below c hc)] at hgone
    exact hcs.deleted c hc hgone
  · exact and_congr_left' (by rw [hget k' a ha])

/-- The destructor pushes its closure. -/
theorem Queued.free (hcs : Queued h cs) {x : Object k} (hx : h.get k a = some x) :
    Onward h cs (h.free a) (cs ++ [⟨k, a, Command.delete k⟩]) := by
  have hself : ∀ k', (h.free a).get k' a = none := fun k' =>
    Heap.get_eq_none_of_objects (Function.update_self ..)
  have hget : ∀ k' b, b ≠ a → (h.free a).get k' b = h.get k' b := fun k' b hb =>
    Heap.get_congr (Function.update_of_ne hb ..)
  have hkept : ∀ k' b, (k', b) ≠ (k, a) → ((h.free a).get k' b = none ↔ h.get k' b = none) := by
    intro k' b hne
    by_cases hb : b = a
    · subst hb
      refine ⟨fun _ => ?_, fun _ => hself k'⟩
      by_contra hsome
      obtain ⟨y, hy⟩ := Option.ne_none_iff_exists'.mp hsome
      exact hne (by rw [Heap.kind_eq_of_get hy hx])
    · rw [hget k' b hb]
  have hearlier : ∀ d ∈ cs, d.isDelete → d.resource ≠ (k, a) := by
    rintro ⟨_, _, _⟩ hd hdelete ⟨⟩
    exact absurd (hx.symm.trans (hcs.gone _ hd hdelete)) nofun
  have hdelete : (⟨k, a, Command.delete k⟩ : Closure).isDelete = true := by cases k <;> rfl
  refine ⟨⟨?_, ?_, ?_, ?_⟩, Nat.le_refl _, ?_⟩
  · intro c hc
    rcases List.mem_append.mp hc with hc | hc
    · exact hcs.below c hc
    · rw [List.mem_singleton.mp hc]
      exact (Heap.lt_next_of_get hx : a < h.next)
  · intro c hc hdelete
    rcases List.mem_append.mp hc with hc | hc
    · exact (hkept _ _ (hearlier c hc hdelete)).mpr (hcs.gone c hc hdelete)
    · rw [List.mem_singleton.mp hc]
      exact hself k
  · refine List.pairwise_append.mpr ⟨hcs.last, List.pairwise_singleton _ _, fun d hd c hc hdelete => ?_⟩
    rw [List.mem_singleton.mp hc]
    exact Ne.symm (hearlier d hd hdelete)
  · intro c hc hgone
    by_cases hne : c.resource = (k, a)
    · exact ⟨_, List.mem_append_right _ (List.mem_singleton_self _), hdelete, hne.symm⟩
    · rcases List.mem_append.mp hc with hc | hc
      · obtain ⟨d, hd, hrest⟩ := hcs.deleted c hc ((hkept _ _ hne).mp hgone)
        exact ⟨d, List.mem_append_left _ hd, hrest⟩
      · exact absurd (congrArg Closure.resource (List.mem_singleton.mp hc)) hne
  · intro k' b _
    by_cases hne : (k', b) = (k, a)
    · cases hne
      refine ⟨fun hfinished => ?_, fun hfinished => absurd (hx.symm.trans hfinished.1) nofun⟩
      exact absurd rfl (hfinished.2 _ (List.mem_append_right _ (List.mem_singleton_self _)))
    · refine and_congr (hkept k' b hne) ?_
      rw [List.forall_mem_append, List.forall_mem_singleton]
      exact and_iff_left (Ne.symm hne)

/-- The closures that wait in the queue. -/
def PoolState.closures (s : PoolState) : List Closure := UpdateQueue.commands s.updateRenderingQueue.queue

namespace PoolState

variable {s s' : PoolState}

/-- What the update thread does to a pool. -/
structure Goes (s s' : PoolState) : Prop where
  onward : Onward s.heap s.closures s'.heap s'.closures
  rendering : s'.rendering = s.rendering

theorem Goes.refl (hs : Queued s.heap s.closures) : Goes s s := ⟨.refl hs, rfl⟩

theorem Goes.trans {s'' : PoolState} (hfst : Goes s s') (hsnd : Goes s' s'') : Goes s s'' :=
  ⟨hfst.onward.trans hsnd.onward, hsnd.rendering.trans hfst.rendering⟩

theorem closures_pushAll (cs : List (Command k)) :
    (s.pushAll k a cs).closures = s.closures ++ cs.map fun c => ⟨k, a, c⟩ := by
  rw [closures, queue_pushAll, UpdateQueue.commands_append]
  congr 1
  induction cs with
  | nil => rfl
  | cons c cs ih => exact congrArg (_ :: ·) ih

theorem closures_commit :
    closures { s with updateRenderingQueue := s.updateRenderingQueue.commit } = s.closures := by
  rw [closures, AtomicCommandQueue.commit, UpdateQueue.commands_append, UpdateQueue.commands_commit,
    List.append_nil, closures]

/-- No commit pushes a destructor's closure. -/
theorem notMem_commitCommands {h : Heap Object} :
    ∀ {k : Kind} {x : Object k} {c : Command k}, c.isDelete → c ∉ x.commitCommands h
  | .virtualObjects, _, VirtualObject.Command.delete, _ => by
    simp [Object.commitCommands, VirtualObject.commitCommands]
  | .renderingUnits, _, RenderingUnit.Command.delete, _ => by
    simp [Object.commitCommands, RenderingUnit.commitCommands]
  | .glBuffers, _, GlBuffer.Command.delete, _ => by
    simp [Object.commitCommands, GlBuffer.commitCommands]
  | .glShaders, _, GlShader.Command.delete, _ => by
    simp [Object.commitCommands, GlShader.commitCommands]
  | .glPrograms, _, GlProgram.Command.delete, _ => by
    simp [Object.commitCommands, GlProgram.commitCommands]
  | .glTextures, _, GlTexture.Command.delete, _ => by
    simp [Object.commitCommands, GlTexture.commitCommands]
  | .glSamplers, _, GlSampler.Command.delete, _ => by
    simp [Object.commitCommands, GlSampler.commitCommands]
  | .glVertexArrays, _, GlVertexArray.Command.delete, _ => by
    simp [Object.commitCommands, GlVertexArray.commitCommands]
  | .glBaseTechniques, _, GlBaseTechnique.Command.delete, _ => by
    simp [Object.commitCommands, GlBaseTechnique.commitCommands]

theorem goes_commitOne (hs : Queued s.heap s.closures) (k : Kind) (a : Nat) : Goes s (s.commitOne k a) := by
  rcases commitOne_cases s k a with heq | ⟨x, hx, heq⟩
  · rw [heq]
    exact .refl hs
  · rw [heq]
    have hpush := hs.push hx (x.commitCommands s.heap) fun c hc hdelete => notMem_commitCommands hdelete hc
    rw [← closures_pushAll] at hpush
    exact ⟨hpush.trans (hpush.queued.modify (Object.committed s.heap)), rfl⟩

theorem Walk.goes {K : Kind → Prop} (hs : Queued s.heap s.closures) (hwalk : Walk K s s') : Goes s s' :=
  hwalk.invariant (I := Goes s) (fun _ k a ht => ht.trans (goes_commitOne ht.onward.queued k a)) (.refl hs)

theorem goes_commitVirtualObject (hs : Queued s.heap s.closures) (a : Nat) :
    Goes s (s.commitVirtualObject a) := by
  rcases walk_commitVirtualObject s a with heq | ⟨s', hwalk, heq⟩
  · rw [heq]
    exact .refl hs
  · rw [heq]
    obtain ⟨honward, hrendering⟩ := hwalk.goes hs
    exact ⟨closures_commit (s := s') ▸ honward, hrendering⟩

theorem goes_moveVirtualObject (hs : Queued s.heap s.closures) {x : Object .virtualObjects}
    (hx : s.heap.get .virtualObjects a = some x) (position quaternion : Bytes) :
    Goes s (s.moveVirtualObject a position quaternion) := by
  have hnew : ∀ c ∈ VirtualObject.moveCommands position quaternion,
      ¬ Command.isDelete (k := .virtualObjects) c := by
    simp [VirtualObject.moveCommands, Command.isDelete]
  have hpush := hs.push hx _ hnew
  rw [← closures_pushAll] at hpush
  refine ⟨?_, rfl⟩
  rw [moveVirtualObject, closures_commit]
  exact hpush

theorem goes_destroy (hs : Queued s.heap s.closures) (a : Nat) : Goes s (s.destroy a) := by
  unfold destroy
  split
  · rename_i k x hx
    have hfree := hs.free (Heap.get_eq_some.mpr hx)
    refine ⟨?_, rfl⟩
    show Onward _ _ _ (s.pushAll k a [Command.delete k]).closures
    rw [closures_pushAll]
    exact hfree
  · exact .refl hs

theorem goes_foldl_destroy (hs : Queued s.heap s.closures) (as : List Nat) :
    Goes s (as.foldl destroy s) :=
  List.foldlRecOn as destroy (.refl hs) fun _ hs' a _ => hs'.trans (goes_destroy hs'.onward.queued a)

theorem goes_addNew (hs : Queued s.heap s.closures) (x : Object k) : Goes s (s.addNew k x) := by
  have halloc := hs.alloc x
  unfold addNew
  dsimp only
  split
  · exact ⟨halloc, rfl⟩
  · have hmade : Goes s { s with heap := s.heap.alloc k x } := ⟨halloc, rfl⟩
    exact hmade.trans (goes_destroy halloc.queued _)

theorem goes_scheduleRemove (hs : Queued s.heap s.closures) (k : Kind) (id : UInt64) :
    Goes s (s.scheduleRemove k id) := by
  unfold scheduleRemove
  split
  · exact .refl hs
  · rename_i a _
    have hremoved : Goes s (s.setContainer k ((s.containers k).erase id)) := ⟨.refl hs, rfl⟩
    exact hremoved.trans (goes_destroy hremoved.onward.queued a)

theorem goes_update (hs : Queued s.heap s.closures) (f : Object k → Object k) (a : Nat) :
    Goes s (s.update k f a) :=
  ⟨hs.modify f, rfl⟩

theorem goes_handled (hs : Queued s.heap s.closures) (hs' : Handled s s') : Goes s s' := by
  cases hs' with
  | newVirtualObject id => exact ⟨hs.alloc (k := .virtualObjects) ({ id := id } : VirtualObject), rfl⟩
  | deleteVirtualObject id => exact ⟨.refl hs, rfl⟩
  | new _ _ => exact goes_addNew hs _
  | delete _ id => exact goes_scheduleRemove hs _ id
  | method _ a => exact goes_update hs _ a
  | @newInto _ _ f _ a _ _ _ =>
    have hupdate := goes_update hs f a
    exact hupdate.trans (goes_addNew hupdate.onward.queued _)
  | commit a => exact goes_commitVirtualObject hs a
  | move ho position quaternion => exact goes_moveVirtualObject hs ho position quaternion

theorem goes_destroyPool (hs : Queued s.heap s.closures) : Goes s s.destroyPool := by
  obtain ⟨honward, hrendering⟩ := goes_foldl_destroy hs _
  exact ⟨honward, hrendering⟩

theorem goes_mergeNew (hs : Queued s.heap s.closures) : Goes s s.mergeNew := ⟨.refl hs, rfl⟩

theorem goes_applyRemovals (hs : Queued s.heap s.closures) : Goes s s.applyRemovals := by
  obtain ⟨honward, hrendering⟩ := goes_foldl_destroy hs (s.virtualObjects.removed.map Prod.snd)
  exact ⟨honward, hrendering⟩

end PoolState

-- ---------------------------------------------------------------------------
-- The client with its names
-- ---------------------------------------------------------------------------

namespace GlNames

/-- The client, the names that its closures have been given, each with the address of the resource
that the closure was made for, and whether the queue has been destroyed. -/
structure State where
  pool : PoolState := {}
  made : List (Nat × GlName) := []
  ended : Bool := false

inductive Label where
  /-- A step of either thread on the pool. -/
  | pool (l : PoolLabel)
  /-- The rendering thread renders a unit, which a virtual object has locked. -/
  | render (unit : Nat) (m : Matrices)
  /-- The destructor of the queue cancels what is left in it. -/
  | destroyQueue

/-- The names that the execution of a closure is given. -/
def given (gl : Driver) (h : Heap Object) (R : Rendering) (c : Closure) : List (Nat × GlName) :=
  (namesFrom gl R.calls ((c.execute gl h R).calls.drop R.calls.length)).map fun u => (c.address, u)

namespace State

def executeNext (gl : Driver) (s : State) : Option State :=
  (s.pool.executeNext gl).map fun pool =>
    match s.pool.updateRenderingQueue.queue with
    | .command c :: _ =>
      { s with pool, made := s.made ++ given gl s.pool.heap s.pool.rendering c }
    | _ => { s with pool }

def destroyQueue (gl : Driver) (s : State) : State :=
  let cancelled := s.pool.updateRenderingQueue.destroy
  { s with
    ended := true
    pool := { s.pool with
      updateRenderingQueue := {}
      rendering := cancelled.foldl (Closure.cancel gl s.pool.heap) s.pool.rendering } }

def step (gl : Driver) (s : State) (l : Label) : Option State :=
  if s.ended then none
  else
    match l with
    | .pool .executeNext => s.executeNext gl
    | .pool l => ((poolMachine gl).step s.pool l).map fun pool => { s with pool }
    | .render unit m => some { s with pool := s.pool.renderRenderingUnit gl m (some unit) }
    | .destroyQueue => some (s.destroyQueue gl)

end State

def machine (gl : Driver) : Machine State Label where
  init := { pool := (poolMachine gl).init }
  step := State.step gl

-- ---------------------------------------------------------------------------
-- The invariant
-- ---------------------------------------------------------------------------

/-- The number of calls that delete a name. -/
def deletions (calls : List GlCall) (u : GlName) : Nat := calls.countP fun c => c.deletes = some u

/-- A name that `d` deletes is neither used nor deleted by `c`. -/
def Spares (d c : GlCall) : Prop := ∀ u, d.deletes = some u → u ∉ c.uses ∧ c.deletes ≠ some u

/-- A resource that has not been finished has its name in its rendering state, and the name has
not been deleted. The name of one that has been finished has been deleted once. -/
structure Named (gl : Driver) (h : Heap Object) (cs : List Closure) (R : Rendering)
    (made : List (Nat × GlName)) : Prop where
  queued : Queued h cs
  below : ∀ e ∈ made, e.1 < h.next
  current : ∀ a k n, (a, k, n) ∈ made ↔ n ≠ 0 ∧ R.name k a = n
  given : made.map Prod.snd = namesFrom gl [] R.calls
  once : ∀ a u, (a, u) ∈ made → Finished h cs u.1 a → deletions R.calls u = 1
  kept : ∀ a u, (a, u) ∈ made → ¬ Finished h cs u.1 a → deletions R.calls u = 0
  known : ∀ d ∈ R.calls, ∀ u, d.deletes = some u → ∃ a, (a, u) ∈ made
  spared : R.calls.Pairwise Spares

variable {gl : Driver} {R R' : Rendering} {made : List (Nat × GlName)} {P : GlName → Prop}
  {calls : List GlCall}

theorem deletions_append (calls calls' : List GlCall) (u : GlName) :
    deletions (calls ++ calls') u = deletions calls u + deletions calls' u :=
  List.countP_append

theorem deletions_eq_zero {u : GlName} : deletions calls u = 0 ↔ ∀ c ∈ calls, c.deletes ≠ some u := by
  simp [deletions, List.countP_eq_zero]

theorem deletions_of_usesOnly (h : UsesOnly P calls) (u : GlName) : deletions calls u = 0 :=
  deletions_eq_zero.mpr fun c hc heq => nomatch (h c hc).2.1.symm.trans heq

theorem deletions_concat (calls : List GlCall) (d : GlCall) (u : GlName) :
    deletions (calls ++ [d]) u = deletions calls u + if d.deletes = some u then 1 else 0 := by
  simp [deletions, List.countP_append, List.countP_singleton]

theorem named_init (gl : Driver) : Named gl {} [] {} [] where
  queued := queued_nil _
  below := nofun
  current := by
    refine fun a k n => ⟨nofun, fun ⟨hne, hname⟩ => absurd hname.symm ?_⟩
    cases k with
    | _ => exact hne
  given := rfl
  once := nofun
  kept := nofun
  known := fun _ hd => absurd hd List.not_mem_nil
  spared := List.Pairwise.nil

theorem Named.onward {h' : Heap Object} {cs' : List Closure} (hN : Named gl h cs R made)
    (honward : Onward h cs h' cs') : Named gl h' cs' R made where
  queued := honward.queued
  below := fun e he => Nat.lt_of_lt_of_le (hN.below e he) honward.next
  current := hN.current
  given := hN.given
  once := fun a u hu hfinished =>
    hN.once a u hu ((honward.finished u.1 a (hN.below _ hu)).mp hfinished)
  kept := fun a u hu hfinished =>
    hN.kept a u hu fun h => hfinished ((honward.finished u.1 a (hN.below _ hu)).mpr h)
  known := hN.known
  spared := hN.spared

/-- A closure that creates or uses a name has been executed, or one has been cancelled. -/
theorem Named.pop (hN : Named gl h (c :: cs) R made) (hc : ¬ c.isDelete) : Named gl h cs R made where
  queued := hN.queued.pop
  below := hN.below
  current := hN.current
  given := hN.given
  once := fun a u hu hfinished => hN.once a u hu ((hN.queued.finished_pop hc).mp hfinished)
  kept := fun a u hu hfinished =>
    hN.kept a u hu fun h => hfinished ((hN.queued.finished_pop hc).mpr h)
  known := hN.known
  spared := hN.spared

/-- A name that is known and not zero belongs to one resource. -/
theorem Named.unique (hN : Named gl h cs R made) (hfresh : FreshNames gl R.calls) {b : Nat} {u : GlName}
    (ha : (a, u) ∈ made) (hb : (b, u) ∈ made) : a = b := by
  have hnodup : (made.map Prod.snd).Nodup := hN.given ▸ hfresh.nodup
  exact congrArg Prod.fst (List.inj_on_of_nodup_map hnodup ha hb rfl)

/-- The names of resources that have not been finished. -/
def Kept (h : Heap Object) (cs : List Closure) (made : List (Nat × GlName)) (u : GlName) : Prop :=
  ∃ a, (a, u) ∈ made ∧ ¬ Finished h cs u.1 a

theorem Named.kept_of_live (hN : Named gl h cs R made) {u : GlName} (hu : R.Live h u) (hne : u.2 ≠ 0) :
    Kept h cs made u := by
  obtain ⟨b, halive, hname⟩ := hu
  exact ⟨b, (hN.current b u.1 u.2).mpr ⟨hne, hname⟩, fun hfinished => halive hfinished.1⟩

/-- Calls that use the names of what has not been finished. -/
theorem Named.issue (hN : Named gl h cs R made) {new : List GlCall} (hcalls : R'.calls = R.calls ++ new)
    (hnames : ∀ k a, R'.name k a = R.name k a) (hnew : UsesOnly P new)
    (hP : ∀ u, P u → u.2 ≠ 0 → Kept h cs made u) : Named gl h cs R' made where
  queued := hN.queued
  below := hN.below
  current := by
    intro a k n
    rw [hnames]
    exact hN.current a k n
  given := by
    rw [hN.given, hcalls, namesFrom_append, hnew.namesFrom_eq_nil, List.append_nil]
  once := by
    intro a u hu hfinished
    rw [hcalls, deletions_append, hN.once a u hu hfinished, deletions_of_usesOnly hnew]
  kept := by
    intro a u hu hfinished
    rw [hcalls, deletions_append, hN.kept a u hu hfinished, deletions_of_usesOnly hnew]
  known := by
    intro d hd u hu
    rw [hcalls] at hd
    rcases List.mem_append.mp hd with hd | hd
    · exact hN.known d hd u hu
    · exact nomatch (hnew d hd).2.1.symm.trans hu
  spared := by
    rw [hcalls]
    refine List.pairwise_append.mpr ⟨hN.spared, ?_, fun d hd c hc u hu => ⟨fun huse => ?_, ?_⟩⟩
    · refine List.pairwise_of_forall_mem_list fun d hd _ _ u hu => ?_
      exact nomatch (hnew d hd).2.1.symm.trans hu
    · obtain ⟨a, ha⟩ := hN.known d hd u hu
      have hne := ((hN.current a u.1 u.2).mp ha).1
      obtain ⟨b, hb, hfinished⟩ := hP u (((hnew c hc).2.2 u huse).resolve_left hne) hne
      exact deletions_eq_zero.mp (hN.kept b u hb hfinished) d hd hu
    · rw [(hnew c hc).2.1]
      exact nofun

/-- A closure has created the name of its resource. -/
theorem Named.create (hN : Named gl h cs R made) {d : GlCall} (hcreates : d.creates = some k)
    (hdeletes : d.deletes = none) (huses : d.uses = []) (hcalls : R'.calls = R.calls ++ [d])
    (hzero : R.name k a = 0) (hname : R'.name k a = gl.name R.calls d)
    (hother : ∀ k' b, (k', b) ≠ (k, a) → R'.name k' b = R.name k' b) (hfresh : FreshNames gl R'.calls)
    (ha : a < h.next) (hfinished : ¬ Finished h cs k a) :
    Named gl h cs R' (made ++ [(a, k, gl.name R.calls d)]) := by
  have hnames : namesFrom gl [] R'.calls = made.map Prod.snd ++ [(k, gl.name R.calls d)] := by
    rw [hcalls, namesFrom_append, hN.given, namesFrom, hcreates]
    rfl
  have hnew : (k, gl.name R.calls d) ∉ made.map Prod.snd := by
    have hnodup := hfresh.nodup
    rw [hnames] at hnodup
    exact fun hmem => (List.nodup_append.mp hnodup).2.2 _ hmem _ (List.mem_singleton_self _) rfl
  have hne : gl.name R.calls d ≠ 0 :=
    hfresh.nonzero (k, gl.name R.calls d) (hnames ▸ List.mem_append_right _ (List.mem_singleton_self _))
  have hsame : ∀ u, deletions R'.calls u = deletions R.calls u := by
    intro u
    rw [hcalls, deletions_concat, hdeletes]
    rfl
  refine ⟨hN.queued, ?_, ?_, ?_, ?_, ?_, ?_, ?_⟩
  · intro e he
    rcases List.mem_append.mp he with he | he
    · exact hN.below e he
    · rw [List.mem_singleton.mp he]
      exact ha
  · intro b k' n
    rw [List.mem_append, List.mem_singleton, hN.current]
    by_cases hresource : (k', b) = (k, a)
    · cases hresource
      rw [hzero, hname]
      constructor
      · rintro (⟨hn, rfl⟩ | heq)
        · exact absurd rfl hn
        · cases heq
          exact ⟨hne, rfl⟩
      · rintro ⟨-, rfl⟩
        exact .inr rfl
    · rw [hother k' b hresource]
      refine ⟨fun h => h.resolve_right ?_, .inl⟩
      rintro ⟨⟩
      exact hresource rfl
  · rw [hnames, List.map_append]
    rfl
  · intro b u hu hdone
    rw [hsame]
    rcases List.mem_append.mp hu with hu | hu
    · exact hN.once b u hu hdone
    · cases List.mem_singleton.mp hu
      exact absurd hdone hfinished
  · intro b u hu hleft
    rw [hsame]
    rcases List.mem_append.mp hu with hu | hu
    · exact hN.kept b u hu hleft
    · cases List.mem_singleton.mp hu
      refine deletions_eq_zero.mpr fun c hc hdelete => ?_
      obtain ⟨b, hb⟩ := hN.known c hc _ hdelete
      exact hnew (List.mem_map_of_mem (f := Prod.snd) hb)
  · intro c hc u hu
    rw [hcalls] at hc
    rcases List.mem_append.mp hc with hc | hc
    · obtain ⟨b, hb⟩ := hN.known c hc u hu
      exact ⟨b, List.mem_append_left _ hb⟩
    · rw [List.mem_singleton.mp hc, hdeletes] at hu
      cases hu
  · rw [hcalls]
    refine List.pairwise_append.mpr ⟨hN.spared, List.pairwise_singleton _ _, fun e _ c hc u _ => ?_⟩
    rw [List.mem_singleton.mp hc, huses, hdeletes]
    exact ⟨List.not_mem_nil, (Option.some_ne_none u).symm⟩

/-- The closure of a destructor has been executed, or cancelled. -/
theorem Named.delete (hN : Named gl h (c :: cs) R made) (hc : c.isDelete) (hfresh : FreshNames gl R.calls) :
    Named gl h cs (c.execute gl h R) made := by
  obtain ⟨hnames, hcases⟩ := Closure.nameDeleted gl h R hc
  have hpop := fun k a => hN.queued.finished_pop_delete (k := k) (a := a) hc
  have hcurrent : ∀ a k n, (a, k, n) ∈ made ↔ n ≠ 0 ∧ (c.execute gl h R).name k a = n := by
    intro a k n
    rw [hnames]
    exact hN.current a k n
  rcases hcases with ⟨hzero, hcalls⟩ | ⟨hne, d, hcreates, hdeletes, huses, hcalls⟩
  · -- nothing has been created for the resource
    refine ⟨hN.queued.pop, hN.below, hcurrent, hcalls ▸ hN.given, ?_, ?_, hcalls ▸ hN.known,
      hcalls ▸ hN.spared⟩
    · intro a u hu hfinished
      rw [hcalls]
      rcases (hpop u.1 a).mp hfinished with hfinished | hresource
      · exact hN.once a u hu hfinished
      · obtain ⟨hne, hname⟩ := (hN.current a u.1 u.2).mp hu
        obtain ⟨hkind, rfl⟩ := Prod.mk.inj hresource
        exact absurd (hname.symm.trans (hkind ▸ hzero)) hne
    · intro a u hu hfinished
      rw [hcalls]
      exact hN.kept a u hu fun h => hfinished ((hpop u.1 a).mpr (.inl h))
  · have hmade : (c.address, c.kind, R.name c.kind c.address) ∈ made :=
      (hN.current _ _ _).mpr ⟨hne, rfl⟩
    have hkept := hN.kept _ _ hmade not_finished_front
    have hcount : ∀ u, deletions (c.execute gl h R).calls u =
        deletions R.calls u + if (c.kind, R.name c.kind c.address) = u then 1 else 0 := by
      intro u
      rw [hcalls, deletions_concat, hdeletes]
      simp only [Option.some.injEq]
    refine ⟨hN.queued.pop, hN.below, hcurrent, ?_, ?_, ?_, ?_, ?_⟩
    · rw [hcalls, namesFrom_append, hN.given, namesFrom, hcreates]
      simp [namesFrom]
    · intro a u hu hfinished
      rw [hcount]
      rcases (hpop u.1 a).mp hfinished with hfinished | hresource
      · rw [hN.once a u hu hfinished, if_neg]
        rintro rfl
        cases hN.unique hfresh hu hmade
        exact not_finished_front hfinished
      · obtain ⟨hne, hname⟩ := (hN.current a u.1 u.2).mp hu
        have hself : (c.kind, R.name c.kind c.address) = u := by
          obtain ⟨hkind, haddress⟩ := Prod.mk.inj hresource
          exact Prod.ext hkind.symm (hkind ▸ haddress ▸ hname)
        rw [← hself, hkept, if_pos rfl]
    · intro a u hu hfinished
      rw [hcount, hN.kept a u hu fun h => hfinished ((hpop u.1 a).mpr (.inl h)), if_neg]
      rintro rfl
      cases hN.unique hfresh hu hmade
      exact hfinished ((hpop _ _).mpr (.inr rfl))
    · intro e he u hu
      rw [hcalls] at he
      rcases List.mem_append.mp he with he | he
      · exact hN.known e he u hu
      · rw [List.mem_singleton.mp he, hdeletes] at hu
        exact ⟨c.address, Option.some.inj hu ▸ hmade⟩
    · rw [hcalls]
      refine List.pairwise_append.mpr ⟨hN.spared, List.pairwise_singleton _ _, fun e he d' hd' u hu => ?_⟩
      rw [List.mem_singleton.mp hd', huses, hdeletes]
      refine ⟨List.not_mem_nil, ?_⟩
      rintro ⟨⟩
      exact deletions_eq_zero.mp hkept e he hu

theorem given_of_calls {new : List GlCall} (hcalls : (c.execute gl h R).calls = R.calls ++ new) :
    given gl h R c = (namesFrom gl R.calls new).map fun u => (c.address, u) := by
  rw [given, hcalls, List.drop_left]

theorem name_execute {n : GLuint} (hself : (c.execute gl h R).name c.kind c.address = n) (k : Kind) (a : Nat) :
    (c.execute gl h R).name k a = if (k, a) = c.resource then n else R.name k a := by
  split
  · rename_i hresource
    cases hresource
    exact hself
  · rename_i hne
    exact Closure.name_execute_of_ne hne

theorem exists_calls_of_isDelete (gl : Driver) (h : Heap Object) (hc : c.isDelete) :
    ∃ new, (c.execute gl h R).calls = R.calls ++ new ∧ namesFrom gl R.calls new = [] := by
  obtain ⟨-, ⟨-, hcalls⟩ | ⟨-, d, hcreates, -, -, hcalls⟩⟩ := Closure.nameDeleted gl h R hc
  · exact ⟨[], by rw [hcalls, List.append_nil], rfl⟩
  · exact ⟨[d], hcalls, by simp [namesFrom, hcreates]⟩

/-- The closure at the front has been executed. -/
theorem Named.execute (hN : Named gl h (c :: cs) R made) (hsucceeds : c.Succeeds gl h R)
    (hfresh : FreshNames gl (c.execute gl h R).calls) :
    Named gl h cs (c.execute gl h R) (made ++ GlNames.given gl h R c) := by
  by_cases hc : c.isDelete
  · obtain ⟨new, hcalls, hnew⟩ := exists_calls_of_isDelete (R := R) gl h hc
    rw [given_of_calls hcalls, hnew, List.map_nil, List.append_nil]
    exact hN.delete hc (hfresh.earlier ⟨_, hcalls.symm⟩)
  have hpopped := hN.pop hc
  have hfront : ¬ Finished h cs c.kind c.address := fun hfinished =>
    not_finished_front ((hN.queued.finished_pop hc).mp hfinished)
  have hstep := Closure.nameStep hc hsucceeds
  generalize hcalls : (c.execute gl h R).calls = calls, hself : (c.execute gl h R).name c.kind c.address = n
    at hstep
  cases hstep with
  | @kept new hnew =>
    rw [given_of_calls hcalls, hnew.namesFrom_eq_nil, List.map_nil, List.append_nil]
    refine hpopped.issue hcalls (fun k a => ?_) hnew ?_
    · rw [name_execute hself]
      split
      · rename_i hresource
        cases hresource
        rfl
      · rfl
    · rintro u (rfl | hlive) hne
      · exact ⟨c.address, (hN.current _ _ _).mpr ⟨hne, rfl⟩, hfront⟩
      · exact hpopped.kept_of_live hlive hne
  | @created d new hzero hcreates hdeletes huses hnew =>
    have hassoc : R.calls ++ d :: new = (R.calls ++ [d]) ++ new := List.append_cons ..
    rw [given_of_calls hcalls, namesFrom, hcreates, hnew.namesFrom_eq_nil]
    -- first the name is created, then it is used
    have hcreated : Named gl h cs { c.execute gl h R with calls := R.calls ++ [d] }
        (made ++ [(c.address, c.kind, gl.name R.calls d)]) :=
      hpopped.create hcreates hdeletes huses rfl hzero hself
        (fun _ _ hne => Closure.name_execute_of_ne hne) (hfresh.earlier ⟨_, (hcalls.trans hassoc).symm⟩)
        (hN.queued.below c List.mem_cons_self) hfront
    refine hcreated.issue (hcalls.trans hassoc) (fun _ _ => rfl) hnew ?_
    rintro u (rfl | hlive) hne
    · exact ⟨c.address, List.mem_append_right _ (List.mem_singleton_self _), hfront⟩
    · obtain ⟨b, hb, hkept⟩ := hpopped.kept_of_live hlive hne
      exact ⟨b, List.mem_append_left _ hb, hkept⟩

theorem calls_execute (hsucceeds : c.Succeeds gl h R) : R.calls <+: (c.execute gl h R).calls := by
  by_cases hc : c.isDelete
  · obtain ⟨new, hcalls, -⟩ := exists_calls_of_isDelete (R := R) gl h hc
    exact ⟨new, hcalls.symm⟩
  · have hstep := Closure.nameStep hc hsucceeds
    generalize (c.execute gl h R).calls = calls, (c.execute gl h R).name c.kind c.address = n at hstep
    cases hstep with
    | kept _ => exact List.prefix_append ..
    | created _ _ _ _ _ => exact List.prefix_append ..

theorem calls_cancel (c : Closure) : R.calls <+: (c.cancel gl h R).calls := by
  unfold Closure.cancel
  split
  · rename_i hc
    obtain ⟨new, hcalls, -⟩ := exists_calls_of_isDelete (R := R) gl h hc
    exact ⟨new, hcalls.symm⟩
  · exact List.prefix_rfl

theorem calls_foldl_cancel (cs : List Closure) : R.calls <+: (cs.foldl (Closure.cancel gl h) R).calls :=
  List.foldlRecOn (motive := fun R' : Rendering => R.calls <+: R'.calls) cs _ List.prefix_rfl
    fun _ hR' c _ => hR'.trans (calls_cancel c)

/-- The destructor of the queue has cancelled all closures. -/
theorem Named.foldl_cancel (hN : Named gl h cs R made)
    (hfresh : FreshNames gl (cs.foldl (Closure.cancel gl h) R).calls) :
    Named gl h [] (cs.foldl (Closure.cancel gl h) R) made := by
  induction cs generalizing R with
  | nil => exact hN
  | cons c cs ih =>
    refine ih ?_ hfresh
    unfold Closure.cancel
    split
    · rename_i hc
      exact hN.delete hc (hfresh.earlier ((calls_cancel c).trans (calls_foldl_cancel cs)))
    · rename_i hc
      exact hN.pop hc

-- ---------------------------------------------------------------------------
-- Steps
-- ---------------------------------------------------------------------------

/-- What rendering does to the GL context and the rendering states. -/
structure Renders (h : Heap Object) (R R' : Rendering) : Prop where
  calls : ∃ new, R'.calls = R.calls ++ new ∧ UsesOnly (R.Live h) new
  name : ∀ k a, R'.name k a = R.name k a

theorem Renders.refl (h : Heap Object) (R : Rendering) : Renders h R R :=
  ⟨⟨[], (List.append_nil _).symm, usesOnly_nil⟩, fun _ _ => rfl⟩

theorem renders_onState {f : Thread GlBaseTechnique.RenderingState → Thread GlBaseTechnique.RenderingState}
    (hf : ∀ t, GlBaseTechnique.IssuesOnly (R.Live h) t (f t)) :
    Renders h R (R.onState .glBaseTechniques a f) where
  calls := hf { calls := R.calls, rendering := R.states .glBaseTechniques a }
  name := by
    intro k b
    by_cases hne : (k, b) = (.glBaseTechniques, a)
    · cases hne
      rfl
    · exact Rendering.name_onState_of_ne hne

theorem renders_withLock {s : PoolState} {p : WeakPtr} {f : Nat → Object k → PoolState}
    (hf : ∀ a x, ∃ R, f a x = { s with rendering := R } ∧ Renders s.heap s.rendering R) :
    ∃ R, s.withLock k p f = { s with rendering := R } ∧ Renders s.heap s.rendering R := by
  unfold PoolState.withLock
  split
  · exact ⟨s.rendering, rfl, .refl ..⟩
  · split
    · exact ⟨s.rendering, rfl, .refl ..⟩
    · exact hf _ _

theorem renderRenderingUnit_eq (gl : Driver) (s : PoolState) (m : Matrices) (p : WeakPtr) :
    ∃ R, s.renderRenderingUnit gl m p = { s with rendering := R } ∧ Renders s.heap s.rendering R :=
  renders_withLock fun _ _ => renders_withLock fun _ _ =>
    ⟨_, rfl, renders_onState (GlBaseTechnique.issuesOnly_render (s.rendering.locks_only s.heap) m)⟩

/-- What a step does. -/
inductive Stepped (gl : Driver) (s : State) : Label → State → Prop
  | goes {l : Label} {pool : PoolState} (hpool : Queued s.pool.heap s.pool.closures → s.pool.Goes pool) :
      Stepped gl s l { s with pool }
  | execute {c : Closure} {rest : List (CommandInfo Closure)}
      (hqueue : s.pool.updateRenderingQueue.queue = .command c :: rest) :
      Stepped gl s (.pool .executeNext)
        { s with
          pool := { s.pool with
            updateRenderingQueue := { s.pool.updateRenderingQueue with queue := rest }
            rendering := c.execute gl s.pool.heap s.pool.rendering }
          made := s.made ++ GlNames.given gl s.pool.heap s.pool.rendering c }
  | render {unit : Nat} {m : Matrices} {R : Rendering} (hR : Renders s.pool.heap s.pool.rendering R) :
      Stepped gl s (.render unit m) { s with pool := { s.pool with rendering := R } }
  | destroyQueue : Stepped gl s .destroyQueue (s.destroyQueue gl)

variable {s s' : State} {l : Label} {ls : List Label}

theorem stepped_executeNext (hstep : s.executeNext gl = some s') : Stepped gl s (.pool .executeNext) s' := by
  obtain ⟨pool, hpool, rfl⟩ := Option.map_eq_some_iff.mp hstep
  rcases PoolState.executeNext_cases hpool with ⟨rest, hqueue, rfl⟩ | ⟨c, rest, hqueue, rfl⟩
  · rw [hqueue]
    refine .goes fun hs => ⟨?_, rfl⟩
    have hclosures : s.pool.closures = UpdateQueue.commands rest := by
      rw [PoolState.closures, hqueue]
      rfl
    rw [hclosures] at hs ⊢
    exact .refl hs
  · rw [hqueue]
    exact .execute hqueue

theorem step_cases (hstep : (machine gl).step s l = some s') : Stepped gl s l s' := by
  have hstep : s.step gl l = some s' := hstep
  unfold State.step at hstep
  split at hstep
  · cases hstep
  cases l with
  | render unit m =>
    cases hstep
    obtain ⟨R, hpool, hR⟩ := renderRenderingUnit_eq gl s.pool m (some unit)
    rw [hpool]
    exact .render hR
  | destroyQueue =>
    cases hstep
    exact .destroyQueue
  | pool l =>
    cases l with
    | executeNext => exact stepped_executeNext hstep
    | request r =>
      obtain ⟨pool, hpool, rfl⟩ := Option.map_eq_some_iff.mp hstep
      have hhandled := PoolState.handle_cases (PoolState.handle_of_step hpool)
      exact .goes fun hs => PoolState.goes_handled hs hhandled
    | newSession =>
      obtain ⟨pool, hpool, rfl⟩ := Option.map_eq_some_iff.mp hstep
      exact PoolState.newSession_of_step hpool ▸ .goes PoolState.goes_destroyPool
    | mergeNew =>
      obtain ⟨pool, hpool, rfl⟩ := Option.map_eq_some_iff.mp hstep
      exact PoolState.mergeNew_of_step hpool ▸ .goes PoolState.goes_mergeNew
    | applyRemovals =>
      obtain ⟨pool, hpool, rfl⟩ := Option.map_eq_some_iff.mp hstep
      exact PoolState.applyRemovals_of_step hpool ▸ .goes PoolState.goes_applyRemovals

/-- The rendering thread does not come to a compilation or a linking that fails. -/
def Succeeds (gl : Driver) (s : State) : Label → Prop
  | .pool .executeNext => ∀ c, s.pool.updateRenderingQueue.queue.head? = some (.command c) →
    c.Succeeds gl s.pool.heap s.pool.rendering
  | _ => True

/-- What holds as long as no compilation or linking fails. -/
structure Inv (gl : Driver) (s : State) : Prop where
  queued : Queued s.pool.heap s.pool.closures
  named : FreshNames gl s.pool.rendering.calls → Named gl s.pool.heap s.pool.closures s.pool.rendering s.made

theorem inv_init : Inv gl (machine gl).init := ⟨queued_nil _, fun _ => named_init gl⟩

theorem closures_of_queue {rest : List (CommandInfo Closure)}
    (hqueue : s.pool.updateRenderingQueue.queue = .command c :: rest) :
    s.pool.closures = c :: UpdateQueue.commands rest := by
  rw [PoolState.closures, hqueue]
  rfl

theorem Inv.step (h : Inv gl s) (hsucceeds : Succeeds gl s l) (hstep : (machine gl).step s l = some s') :
    Inv gl s' := by
  cases step_cases hstep with
  | goes hpool =>
    obtain ⟨honward, hrendering⟩ := hpool h.queued
    refine ⟨honward.queued, fun hfresh => ?_⟩
    rw [hrendering] at hfresh ⊢
    exact (h.named hfresh).onward honward
  | @execute c rest hqueue =>
    have hclosures := closures_of_queue hqueue
    have hc := hsucceeds c (by rw [hqueue]; rfl)
    refine ⟨(hclosures ▸ h.queued).pop, fun hfresh => ?_⟩
    have hN := h.named (hfresh.earlier (calls_execute hc))
    rw [hclosures] at hN
    exact hN.execute hc hfresh
  | render hR =>
    obtain ⟨⟨new, hcalls, hnew⟩, hnames⟩ := hR
    refine ⟨h.queued, fun hfresh => ?_⟩
    have hN := h.named (hfresh.earlier ⟨new, hcalls.symm⟩)
    exact hN.issue hcalls hnames hnew fun u hu hne => hN.kept_of_live hu hne
  | destroyQueue =>
    refine ⟨queued_nil _, fun hfresh => ?_⟩
    have hcancelled : s.pool.updateRenderingQueue.destroy = s.pool.closures :=
      UpdateQueue.cancelFrom_eq_commands _
    have hfresh : FreshNames gl
        (s.pool.updateRenderingQueue.destroy.foldl (Closure.cancel gl s.pool.heap) s.pool.rendering).calls :=
      hfresh
    rw [hcancelled] at hfresh
    have hN := (h.named (hfresh.earlier (calls_foldl_cancel _))).foldl_cancel hfresh
    rw [← hcancelled] at hN
    exact hN

/-- Every name is deleted when its resource has gone and the queue has no closure of it any more.
It is deleted once, and not used afterwards. -/
structure DeletesOnce (gl : Driver) (s : State) : Prop where
  made : ∀ u ∈ namesFrom gl [] s.pool.rendering.calls, ∃ a, (a, u) ∈ s.made
  deleted : ∀ a u, (a, u) ∈ s.made → Finished s.pool.heap s.pool.closures u.1 a →
    deletions s.pool.rendering.calls u = 1
  notTwice : ∀ a u, (a, u) ∈ s.made → deletions s.pool.rendering.calls u ≤ 1
  spared : s.pool.rendering.calls.Pairwise Spares

theorem Named.deletesOnce (hN : Named gl s.pool.heap s.pool.closures s.pool.rendering s.made) :
    DeletesOnce gl s where
  made := by
    intro u hu
    rw [← hN.given] at hu
    obtain ⟨⟨a, _⟩, ha, rfl⟩ := List.mem_map.mp hu
    exact ⟨a, ha⟩
  deleted := hN.once
  notTwice := by
    intro a u hu
    by_cases hfinished : Finished s.pool.heap s.pool.closures u.1 a
    · exact Nat.le_of_eq (hN.once a u hu hfinished)
    · exact Nat.le_trans (Nat.le_of_eq (hN.kept a u hu hfinished)) (Nat.zero_le 1)
  spared := hN.spared

theorem deletesOnce_run (halong : (machine gl).Along (Succeeds gl) ls) (hrun : (machine gl).run ls = some s)
    (hfresh : FreshNames gl s.pool.rendering.calls) : DeletesOnce gl s := by
  have hinv : Inv gl s := Machine.Along.invariant inv_init (fun _ _ _ h => h.step) halong hrun
  exact (hinv.named hfresh).deletesOnce

/-- The driver that gives new names, and answers every question with `value`. -/
def countingDriver (value : Int32) : Driver where
  name before _ := UInt32.ofNat (before.length + 1)
  value _ _ := value

theorem succeeds_of_value (hgl : ∀ calls c, gl.value calls c = 1) (s : State) (l : Label) :
    Succeeds gl s l := by
  have hclosure : ∀ c : Closure, c.Succeeds gl s.pool.heap s.pool.rendering := by
    rintro ⟨k, a, c⟩
    cases k with
    | glShaders =>
      cases c with
      | compile _ _ => exact fun _ => hgl _ _
      | delete => trivial
    | glPrograms =>
      cases c with
      | link _ => exact fun _ => hgl _ _
      | delete => trivial
    | _ => trivial
  unfold Succeeds
  split
  · exact fun c _ => hclosure c
  · trivial

/-- A program of one shader is drawn before and after the shader is deleted. The rest goes with
the session, and the queue is destroyed. -/
def drawnProgram : List Label :=
  let requests := [.virtualObjectNew 1, .renderingUnitNew 2 1, .glBaseTechniqueNew 3 2,
    .glShaderNew 4 [] 0x8b31, .glProgramNew 5, .glAttachShader 5 4, .glLinkProgram 5, .bindProgram 3 5,
    .glVertexArrayNew 6, .glEnableVertexAttribArray 6 0, .bindVertexArray 3 6, .glDrawArrays 3 4 0 3,
    .virtualObjectCommit 1]
  requests.map (fun r => .pool (.request r)) ++ List.replicate 9 (.pool .executeNext) ++
    [.render 1 ⟨[], [], [], [], []⟩, .pool (.request (.glShaderDelete 4)),
      .pool (.request (.virtualObjectCommit 1)), .pool .executeNext, .pool .executeNext,
      .render 1 ⟨[], [], [], [], []⟩, .pool .newSession, .destroyQueue]

theorem deletesOnce_drawnProgram :
    ∃ s, (machine (countingDriver 1)).run drawnProgram = some s ∧
      s.made = [(3, .glShaders, 1), (4, .glPrograms, 5), (5, .glVertexArrays, 9)] ∧
      DeletesOnce (countingDriver 1) s := by
  obtain ⟨s, hrun, hmade, hnames⟩ : ∃ s, (machine (countingDriver 1)).run drawnProgram = some s ∧
      s.made = [(3, .glShaders, 1), (4, .glPrograms, 5), (5, .glVertexArrays, 9)] ∧
      namesFrom (countingDriver 1) [] s.pool.rendering.calls =
        [(.glShaders, 1), (.glPrograms, 5), (.glVertexArrays, 9)] :=
    ⟨_, rfl, rfl, rfl⟩
  have hfresh : FreshNames (countingDriver 1) s.pool.rendering.calls := by
    constructor
    · rw [hnames]
      decide
    · rw [hnames]
      decide
  have halong : (machine (countingDriver 1)).Along (Succeeds (countingDriver 1)) drawnProgram :=
    Machine.alongFrom_of_mem fun l _ s => succeeds_of_value (fun _ _ => rfl) s l
  exact ⟨s, hrun, hmade, deletesOnce_run halong hrun hfresh⟩

/-- The shader does not compile, and the program does not link. Their names stay for ever. -/
theorem not_deletesOnce_notCompiled :
    ∃ s, (machine (countingDriver 0)).run drawnProgram = some s ∧
      FreshNames (countingDriver 0) s.pool.rendering.calls ∧ ¬ DeletesOnce (countingDriver 0) s := by
  obtain ⟨s, hrun, hmade, hnames, hfinished, hdeletions⟩ : ∃ s,
      (machine (countingDriver 0)).run drawnProgram = some s ∧
      s.made = [(3, .glShaders, 1), (4, .glPrograms, 7), (5, .glVertexArrays, 13)] ∧
      namesFrom (countingDriver 0) [] s.pool.rendering.calls =
        [(.glShaders, 1), (.glPrograms, 7), (.glVertexArrays, 13)] ∧
      (s.pool.heap.get .glShaders 3 = none ∧ s.pool.closures = []) ∧
      deletions s.pool.rendering.calls (.glShaders, 1) = 0 :=
    ⟨_, rfl, rfl, rfl, ⟨rfl, rfl⟩, rfl⟩
  refine ⟨s, hrun, ⟨?_, ?_⟩, fun h => ?_⟩
  · rw [hnames]
    decide
  · rw [hnames]
    decide
  · have honce := h.deleted 3 (.glShaders, 1) (by rw [hmade]; exact List.mem_cons_self)
      ⟨hfinished.1, by rw [hfinished.2]; exact nofun⟩
    exact absurd (honce.symm.trans hdeletions) (by decide)

end GlNames

end ZenRemote.Client
