-- SUMMARY: The blocks of a buffer's data: who owns them from their allocation to the upload, the cancellation or the end.
import ZenRemote.Client.AtomicCommandQueue
import ZenRemote.Client.GlBuffer
import ZenRemote.Lib.Blocks

/-!
# The blocks of a buffer

A buffer keeps its pending data in a block of memory, which it uses again as long as the
data fit. A commit hands the block on to its closure, and the closure frees it, whether it
is executed or cancelled. What the buffer still has when it goes it frees itself.
-/

namespace ZenRemote.Client

inductive BlockOwner where
  | buffer
  /-- The closure of this commit. -/
  | command (n : Nat)
  deriving DecidableEq, Repr

abbrev BlockMemory := Memory BlockOwner UInt8

/-- A closure in the queue, with the number of its commit and the pointer to the data. -/
inductive BlockCommand where
  | bufferData (n : Nat) (data : Option Nat) (target : UInt32) (size : Nat) (usage : UInt32)
  | delete
  deriving DecidableEq, Repr

namespace BlockCommand

/-- The closure, with the calls of `glBufferData` that it makes. -/
def run (m : BlockMemory) (cancel : Bool) :
    BlockCommand → Except Memory.Fault (BlockMemory × List (Nat × GlCall))
  | .bufferData n data target size usage => do
    if cancel then
      let m ← m.free (.command n) data
      return (m, [])
    else
      let bytes ← m.read (.command n) data size
      let m ← m.free (.command n) data
      return (m, [(n, .bufferData target size bytes usage)])
  | .delete => return (m, [])

def cancelAll (m : BlockMemory) : List BlockCommand → Except Memory.Fault BlockMemory
  | [] => return m
  | c :: cs => do
    let (m, _) ← c.run m true
    cancelAll m cs

def number? : BlockCommand → Option Nat
  | .bufferData n _ _ _ _ => some n
  | .delete => none

end BlockCommand

/-- A `GlBuffer`, with the pointer to its data. -/
structure BlockBuffer where
  id : UInt64
  data : Option Nat := none
  size : Nat := 0
  alloc : Nat := 0
  target : UInt32 := 0
  usage : UInt32 := 0
  dataDamaged : Bool := false
  deriving DecidableEq, Repr

namespace BlockBuffer

def glBufferData (m : BlockMemory) (b : BlockBuffer) (data : Bytes) (target usage : UInt32)
    (moves : Bool) : Except Memory.Fault (BlockMemory × BlockBuffer) := do
  if b.alloc < data.length then
    let (m, a) ← m.realloc .buffer b.data data.length 0 moves
    let m ← m.write .buffer (some a) data
    return (m, { b with
      data := some a, alloc := data.length, size := data.length, target := target, usage := usage
      dataDamaged := true })
  else
    let m ← m.write .buffer b.data data
    return (m, { b with size := data.length, target := target, usage := usage, dataDamaged := true })

/-- `Commit`, as the `n`-th one, with what it pushes. -/
def commit (m : BlockMemory) (b : BlockBuffer) (n : Nat) :
    Except Memory.Fault (BlockMemory × BlockBuffer × List BlockCommand) := do
  if b.dataDamaged then
    -- ownership of the data moves
    let m ← m.give .buffer (.command n) b.data
    return (m, { b with data := none, alloc := 0, size := 0, dataDamaged := false },
      [.bufferData n b.data b.target b.size b.usage])
  else return (m, b, [])

/-- The buffer with the contents of its block. -/
def view (b : BlockBuffer) (bytes : Bytes) : GlBuffer where
  id := b.id
  data := bytes
  size := b.size
  alloc := b.alloc
  target := b.target
  usage := b.usage
  dataDamaged := b.dataDamaged

end BlockBuffer

namespace BufferBlocks

/-- The buffer and the queue, as long as they are there. The last fields record the calls
of GL with the numbers of their commits, the latest `GlBufferData` as a call of GL, and
what it was at each commit. -/
structure State where
  memory : BlockMemory := {}
  buffer : Option BlockBuffer
  queue : Option (AtomicCommandQueue BlockCommand) := some {}
  fault : Option Memory.Fault := none
  uploads : List (Nat × GlCall) := []
  latest : Option GlCall := none
  commits : List (Option GlCall) := []

inductive Label where
  /-- `moves` tells whether `realloc` has to move the block. -/
  | glBufferData (data : Bytes) (target usage : UInt32) (moves : Bool)
  | commit
  | commitQueue
  /-- The executor is at the next entry of a group. -/
  | execute
  | destroyBuffer
  | destroyQueue
  deriving DecidableEq

namespace State

/-- The state after an access to memory. -/
def attempt {α : Type} (s : State) (result : Except Memory.Fault α) (next : α → State) : State :=
  match result with
  | .ok x => next x
  | .error f => { s with fault := some f }

/-- The queue outlives what pushes to it. -/
def step (s : State) : Label → Option State
  | .glBufferData data target usage moves => s.buffer.map fun b =>
    s.attempt (b.glBufferData s.memory data target usage moves) fun (m, b) =>
      { s with memory := m, buffer := some b, latest := some (.bufferData target data.length data usage) }
  | .commit =>
    match s.buffer, s.queue with
    | some b, some q => some <| s.attempt (b.commit s.memory s.commits.length) fun (m, b, cs) =>
      { s with
        memory := m
        buffer := some b
        queue := some (cs.foldl AtomicCommandQueue.push q)
        commits := s.commits ++ [s.latest] }
    | _, _ => none
  | .commitQueue => s.queue.map fun q => { s with queue := some q.commit }
  | .execute =>
    match s.queue with
    | some ⟨.commit :: queue, commitCount⟩ => some { s with queue := some ⟨queue, commitCount - 1⟩ }
    | some ⟨.command c :: queue, commitCount⟩ =>
      if commitCount = 0 then none
      else some <| s.attempt (c.run s.memory false) fun (m, uploads) =>
        { s with memory := m, queue := some ⟨queue, commitCount⟩, uploads := s.uploads ++ uploads }
    | _ => none
  | .destroyBuffer =>
    match s.buffer, s.queue with
    | some b, some q => some <| s.attempt (s.memory.free .buffer b.data) fun m =>
      { s with memory := m, buffer := none, queue := some (q.push .delete) }
    | _, _ => none
  | .destroyQueue => s.queue.map fun q =>
    s.attempt (BlockCommand.cancelAll s.memory q.destroy) fun m => { s with memory := m, queue := none }

end State

def machine (id : UInt64) : Machine State Label where
  init := { buffer := some { id := id } }
  step := State.step

-- ---------------------------------------------------------------------------
-- The buffer, by its contents
-- ---------------------------------------------------------------------------

theorem resize_eq_realloc {bytes : Bytes} {size : Nat} (h : bytes.length ≤ size) :
    Memory.resize bytes size 0 = realloc bytes size := by
  rw [Memory.resize, List.take_of_length_le h, realloc]

/-- `GlBufferData` stays in its block, and does what it does to the contents. -/
theorem glBufferData_view {m : BlockMemory} {b : BlockBuffer} {bytes : Bytes}
    (h : m.Owns .buffer b.data bytes) (halloc : bytes.length = b.alloc) (data : Bytes)
    (target usage : UInt32) (moves : Bool) :
    ∃ m' b' bytes', b.glBufferData m data target usage moves = .ok (m', b') ∧
      m'.Owns .buffer b'.data bytes' ∧ b'.view bytes' = (b.view bytes).glBufferData data target usage ∧
        Memory.Frame [.buffer] m m' := by
  rw [BlockBuffer.glBufferData]
  by_cases hgrows : b.alloc < data.length
  · obtain ⟨m₁, a, hrealloc, howns₁, hframe₁⟩ := h.realloc data.length 0 moves
    rw [resize_eq_realloc (by omega)] at howns₁
    have hfits : data.length ≤ (realloc bytes data.length).length := by
      rw [realloc, List.length_append, List.length_replicate]
      omega
    obtain ⟨m₂, hwrite, howns₂, hframe₂⟩ := howns₁.write hfits
    refine ⟨m₂, { b with
        data := some a, alloc := data.length, size := data.length, target := target, usage := usage
        dataDamaged := true }, _, ?_, howns₂, ?_,
      fun o ho p bytes' h' => hframe₂ o ho p bytes' (hframe₁ o ho p bytes' h')⟩
    · rw [if_pos hgrows, hrealloc]
      show (do let m ← m₁.write .buffer (some a) data; _ : Except _ _) = _
      rw [hwrite]
      rfl
    · simp [BlockBuffer.view, GlBuffer.glBufferData, hgrows, memcpy, Memory.overwrite]
  · have hfits : data.length ≤ bytes.length := by omega
    obtain ⟨m₁, hwrite, howns₁, hframe₁⟩ := h.write hfits
    refine ⟨m₁, { b with size := data.length, target := target, usage := usage, dataDamaged := true }, _,
      ?_, howns₁, ?_, hframe₁⟩
    · rw [if_neg hgrows, hwrite]
      rfl
    · simp [BlockBuffer.view, GlBuffer.glBufferData, hgrows, memcpy, Memory.overwrite]

theorem commit_of_damaged {m : BlockMemory} {b : BlockBuffer} {bytes : Bytes} {n : Nat}
    (h : m.Owns .buffer b.data bytes) (hn : m.Owns (.command n) none []) (hdamaged : b.dataDamaged = true) :
    ∃ m' b', b.commit m n = .ok (m', b', [.bufferData n b.data b.target b.size b.usage]) ∧
      m'.Owns .buffer b'.data [] ∧ b'.view [] = (b.view bytes).committed ∧
        m'.Owns (.command n) b.data bytes ∧ Memory.Frame [.buffer, .command n] m m' := by
  obtain ⟨m', hgive, hbuffer, hcommand, hframe⟩ := h.give hn
  refine ⟨m', { b with data := none, alloc := 0, size := 0, dataDamaged := false }, ?_, hbuffer, ?_,
    hcommand, hframe⟩
  · rw [BlockBuffer.commit, if_pos hdamaged, hgive]
    rfl
  · rw [GlBuffer.committed, BlockBuffer.view, BlockBuffer.view, if_pos hdamaged]

theorem commit_of_clean {m : BlockMemory} {b : BlockBuffer} {n : Nat} (hclean : b.dataDamaged = false) :
    b.commit m n = .ok (m, b, []) := by
  rw [BlockBuffer.commit, hclean]
  rfl

-- ---------------------------------------------------------------------------
-- The closures in the queue
-- ---------------------------------------------------------------------------

/-- Each closure in the queue has its block, with the data of its commit. -/
structure Held (m : BlockMemory) (commits : List (Option GlCall)) (cs : List BlockCommand) : Prop where
  distinct : (cs.filterMap BlockCommand.number?).Nodup
  held : ∀ n p target size usage, .bufferData n p target size usage ∈ cs → ∃ bytes,
    m.Owns (.command n) p bytes ∧ size ≤ bytes.length ∧
      commits[n]? = some (some (.bufferData target size (bytes.take size) usage))
  others : ∀ n, n ∉ cs.filterMap BlockCommand.number? → m.Owns (.command n) none []

theorem Held.run {m : BlockMemory} {commits : List (Option GlCall)} {c : BlockCommand}
    {cs : List BlockCommand} (h : Held m commits (c :: cs)) (cancel : Bool) :
    ∃ m' uploads, c.run m cancel = .ok (m', uploads) ∧ Held m' commits cs ∧
      (∀ u ∈ uploads, commits[u.1]? = some (some u.2)) ∧
        ∀ p bytes, m.Owns .buffer p bytes → m'.Owns .buffer p bytes := by
  cases c with
  | delete =>
    refine ⟨m, [], rfl, ⟨h.distinct, fun n p target size usage hmem => ?_, h.others⟩, nofun, fun _ _ h' => h'⟩
    exact h.held n p target size usage (List.mem_cons_of_mem _ hmem)
  | bufferData n p target size usage =>
    obtain ⟨bytes, howns, hsize, hcommit⟩ := h.held n p target size usage List.mem_cons_self
    obtain ⟨m', hfree, hnone, hframe⟩ := howns.free
    obtain ⟨hfresh, hdistinct⟩ : n ∉ cs.filterMap BlockCommand.number? ∧
        (cs.filterMap BlockCommand.number?).Nodup := List.nodup_cons.mp h.distinct
    have hheld : Held m' commits cs := by
      refine ⟨hdistinct, fun n' p' target' size' usage' hmem => ?_, fun n' hn' => ?_⟩
      · obtain ⟨bytes', howns', hrest⟩ := h.held n' p' target' size' usage' (List.mem_cons_of_mem _ hmem)
        have hne : n' ≠ n := by
          rintro rfl
          exact hfresh (List.mem_filterMap.mpr ⟨_, hmem, rfl⟩)
        exact ⟨bytes', hframe _ (by simpa using hne) p' bytes' howns', hrest⟩
      · by_cases heq : n' = n
        · exact heq ▸ hnone
        · apply hframe _ (by simpa using heq)
          exact h.others n' fun hmem => (List.mem_cons.mp hmem).elim heq hn'
    have hbuffer : ∀ p bytes, m.Owns .buffer p bytes → m'.Owns .buffer p bytes :=
      fun p bytes h' => hframe _ (by simp) p bytes h'
    cases cancel with
    | true =>
      refine ⟨m', [], ?_, hheld, nofun, hbuffer⟩
      rw [BlockCommand.run, if_pos rfl, hfree]
      rfl
    | false =>
      refine ⟨m', [(n, .bufferData target size (bytes.take size) usage)], ?_, hheld, ?_, hbuffer⟩
      · rw [BlockCommand.run, if_neg Bool.false_ne_true, howns.read hsize, hfree]
        rfl
      · intro u hu
        obtain rfl := List.mem_singleton.mp hu
        exact hcommit

theorem Held.cancelAll {m : BlockMemory} {commits : List (Option GlCall)} {cs : List BlockCommand}
    (h : Held m commits cs) : ∃ m', BlockCommand.cancelAll m cs = .ok m' ∧ Held m' commits [] ∧
      ∀ p bytes, m.Owns .buffer p bytes → m'.Owns .buffer p bytes := by
  induction cs generalizing m with
  | nil => exact ⟨m, rfl, h, fun _ _ h' => h'⟩
  | cons c cs ih =>
    obtain ⟨m₁, uploads, hrun, hheld, -, hbuffer⟩ := h.run true
    obtain ⟨m₂, hcancel, hnone, hbuffer'⟩ := ih hheld
    refine ⟨m₂, ?_, hnone, fun p bytes h' => hbuffer' p bytes (hbuffer p bytes h')⟩
    rw [BlockCommand.cancelAll, hrun]
    exact hcancel

/-- What the buffer does with its block does not concern the closures. -/
theorem Held.frame {m m' : BlockMemory} {commits : List (Option GlCall)} {cs : List BlockCommand}
    (h : Held m commits cs) (hframe : Memory.Frame [.buffer] m m') : Held m' commits cs := by
  refine ⟨h.distinct, fun n p target size usage hmem => ?_, fun n hn => ?_⟩
  · obtain ⟨bytes, howns, hrest⟩ := h.held n p target size usage hmem
    exact ⟨bytes, hframe _ (by simp) p bytes howns, hrest⟩
  · exact hframe _ (by simp) _ _ (h.others n hn)

theorem Held.lt_length {m : BlockMemory} {commits : List (Option GlCall)} {cs : List BlockCommand}
    (h : Held m commits cs) {n : Nat} (hn : n ∈ cs.filterMap BlockCommand.number?) : n < commits.length := by
  obtain ⟨c, hmem, hc⟩ := List.mem_filterMap.mp hn
  cases c with
  | delete => cases hc
  | bufferData n' p target size usage =>
    cases hc
    obtain ⟨bytes, -, -, hcommit⟩ := h.held n p target size usage hmem
    exact (List.getElem?_eq_some_iff.mp hcommit).1

theorem Held.commit {m : BlockMemory} {commits : List (Option GlCall)} {cs : List BlockCommand}
    (h : Held m commits cs) (call : Option GlCall) : Held m (commits ++ [call]) cs := by
  refine ⟨h.distinct, fun n p target size usage hmem => ?_, h.others⟩
  obtain ⟨bytes, howns, hsize, hcommit⟩ := h.held n p target size usage hmem
  exact ⟨bytes, howns, hsize, by rw [List.getElem?_append_left (List.getElem?_eq_some_iff.mp hcommit).1, hcommit]⟩

/-- A commit hands the block on to the closure that it pushes. -/
theorem Held.push {m m' : BlockMemory} {commits : List (Option GlCall)} {cs : List BlockCommand}
    (h : Held m commits cs) (hframe : Memory.Frame [.buffer, .command commits.length] m m')
    {p : Option Nat} {bytes : Bytes} (howns : m'.Owns (.command commits.length) p bytes)
    {target : UInt32} {size : Nat} {usage : UInt32} (hsize : size ≤ bytes.length) {call : Option GlCall}
    (hcall : call = some (.bufferData target size (bytes.take size) usage)) :
    Held m' (commits ++ [call]) (cs ++ [.bufferData commits.length p target size usage]) := by
  have hnumbers : (cs ++ [BlockCommand.bufferData commits.length p target size usage]).filterMap
      BlockCommand.number? = cs.filterMap BlockCommand.number? ++ [commits.length] :=
    List.filterMap_append
  have hfresh : commits.length ∉ cs.filterMap BlockCommand.number? :=
    fun hmem => Nat.lt_irrefl _ (h.lt_length hmem)
  have hframe' : ∀ n, n ≠ commits.length → ∀ p bytes,
      m.Owns (.command n) p bytes → m'.Owns (.command n) p bytes :=
    fun n hn => hframe _ (by simpa using hn)
  refine ⟨?_, fun n p' target' size' usage' hmem => ?_, fun n hn => ?_⟩
  · rw [hnumbers]
    exact h.distinct.append (List.nodup_singleton _) (List.disjoint_singleton.mpr hfresh)
  · rcases List.mem_append.mp hmem with hmem | hmem
    · obtain ⟨bytes', howns', hsize', hcommit⟩ := (h.commit call).held n p' target' size' usage' hmem
      have hne : n ≠ commits.length := by
        rintro rfl
        exact hfresh (List.mem_filterMap.mpr ⟨_, hmem, rfl⟩)
      exact ⟨bytes', hframe' n hne p' bytes' howns', hsize', hcommit⟩
    · cases List.mem_singleton.mp hmem
      exact ⟨bytes, howns, hsize, by rw [List.getElem?_concat_length, hcall]⟩
  · rw [hnumbers, List.mem_append, List.mem_singleton, not_or] at hn
    exact hframe' n hn.2 _ _ (h.others n hn.1)

theorem Held.pushDelete {m : BlockMemory} {commits : List (Option GlCall)} {cs : List BlockCommand}
    (h : Held m commits cs) : Held m commits (cs ++ [.delete]) := by
  have hnumbers : (cs ++ [BlockCommand.delete]).filterMap BlockCommand.number? =
      cs.filterMap BlockCommand.number? :=
    List.filterMap_append.trans (List.append_nil _)
  refine ⟨hnumbers ▸ h.distinct, fun n p target size usage hmem => ?_, hnumbers ▸ h.others⟩
  rcases List.mem_append.mp hmem with hmem | hmem
  · exact h.held n p target size usage hmem
  · cases List.mem_singleton.mp hmem

-- ---------------------------------------------------------------------------
-- Runs
-- ---------------------------------------------------------------------------

/-- The closures that are in the queue. -/
def State.commands (s : State) : List BlockCommand := (s.queue.map AtomicCommandQueue.destroy).getD []

/-- The buffer has its block, with the latest data. -/
def HasData (m : BlockMemory) (latest : Option GlCall) : Option BlockBuffer → Prop
  | none => m.Owns .buffer none []
  | some b => ∃ bytes, m.Owns .buffer b.data bytes ∧ (b.view bytes).Latest latest

structure Inv (s : State) : Prop where
  fault : s.fault = none
  buffer : HasData s.memory s.latest s.buffer
  held : Held s.memory s.commits s.commands
  uploads : ∀ u ∈ s.uploads, s.commits[u.1]? = some (some u.2)

theorem destroy_push (q : AtomicCommandQueue BlockCommand) (c : BlockCommand) :
    (q.push c).destroy = q.destroy ++ [c] := by
  simp only [AtomicCommandQueue.destroy, AtomicCommandQueue.push, UpdateQueue.cancelFrom_eq_commands,
    UpdateQueue.commands_append, UpdateQueue.commands_singleton]

theorem destroy_commit (q : AtomicCommandQueue BlockCommand) : q.commit.destroy = q.destroy := by
  simp only [AtomicCommandQueue.destroy, AtomicCommandQueue.commit, UpdateQueue.cancelFrom_eq_commands,
    UpdateQueue.commands_append, UpdateQueue.commands_commit, List.append_nil]

theorem HasData.mono {m m' : BlockMemory} {latest : Option GlCall} {b : Option BlockBuffer}
    (h : HasData m latest b) (hbuffer : ∀ p bytes, m.Owns .buffer p bytes → m'.Owns .buffer p bytes) :
    HasData m' latest b := by
  cases b with
  | none => exact hbuffer _ _ h
  | some b =>
    obtain ⟨bytes, howns, hlatest⟩ := h
    exact ⟨bytes, hbuffer _ _ howns, hlatest⟩

theorem inv_init (id : UInt64) : Inv (machine id).init :=
  ⟨rfl, ⟨[], Memory.owns_nothing nofun, rfl, Nat.le_refl 0, nofun⟩,
    ⟨List.nodup_nil, nofun, fun _ _ => Memory.owns_nothing nofun⟩, nofun⟩

theorem Inv.getElem_commits {s : State} (h : Inv s) (call : Option GlCall) :
    ∀ u ∈ s.uploads, (s.commits ++ [call])[u.1]? = some (some u.2) := by
  intro u hu
  have hcommit := h.uploads u hu
  rw [List.getElem?_append_left (List.getElem?_eq_some_iff.mp hcommit).1, hcommit]

theorem Inv.commit {s s' : State} (h : Inv s) (hstep : s.step .commit = some s') : Inv s' := by
  rw [State.step] at hstep
  split at hstep
  · rename_i b q hb hq
    have hdata := h.buffer
    have hheld := h.held
    rw [hb] at hdata
    rw [State.commands, hq] at hheld
    obtain ⟨bytes, howns, hlatest⟩ := hdata
    cases hdamaged : b.dataDamaged with
    | false =>
      rw [commit_of_clean hdamaged] at hstep
      cases hstep
      exact ⟨h.fault, ⟨bytes, howns, hlatest⟩, hheld.commit _, h.getElem_commits _⟩
    | true =>
      have hnone : s.memory.Owns (.command s.commits.length) none [] :=
        hheld.others _ fun hmem => Nat.lt_irrefl _ (hheld.lt_length hmem)
      obtain ⟨m', b', hcommit, hbuffer, hview, hcommand, hframe⟩ := commit_of_damaged howns hnone hdamaged
      rw [hcommit] at hstep
      cases hstep
      refine ⟨h.fault, ⟨[], hbuffer, ?_⟩, ?_, h.getElem_commits _⟩
      · rw [hview]
        exact hlatest.committed
      · show Held m' _ (q.push _).destroy
        rw [destroy_push]
        exact hheld.push hframe hcommand hlatest.size (hlatest.call hdamaged)
  · cases hstep

theorem Inv.execute {s s' : State} (h : Inv s) (hstep : s.step .execute = some s') : Inv s' := by
  have hheld := h.held
  rw [State.commands] at hheld
  rw [State.step] at hstep
  split at hstep
  · rename_i queue commitCount hq
    rw [hq] at hheld
    cases hstep
    exact ⟨h.fault, h.buffer, hheld, h.uploads⟩
  · rename_i c queue commitCount hq
    rw [hq] at hheld
    split at hstep
    · cases hstep
    · obtain ⟨m', uploads, hrun, hrest, huploads, hbuffer⟩ := Held.run hheld false
      rw [hrun] at hstep
      cases hstep
      refine ⟨h.fault, h.buffer.mono hbuffer, hrest, fun u hu => ?_⟩
      rcases List.mem_append.mp hu with hu | hu
      · exact h.uploads u hu
      · exact huploads u hu
  · cases hstep

theorem Inv.destroyBuffer {s s' : State} (h : Inv s) (hstep : s.step .destroyBuffer = some s') : Inv s' := by
  rw [State.step] at hstep
  split at hstep
  · rename_i b q hb hq
    have hdata := h.buffer
    have hheld := h.held
    rw [hb] at hdata
    rw [State.commands, hq] at hheld
    obtain ⟨bytes, howns, -⟩ := hdata
    obtain ⟨m', hfree, hnone, hframe⟩ := howns.free
    rw [hfree] at hstep
    cases hstep
    refine ⟨h.fault, hnone, ?_, h.uploads⟩
    show Held m' _ (q.push _).destroy
    rw [destroy_push]
    exact (hheld.frame hframe).pushDelete
  · cases hstep

theorem Inv.step {s s' : State} {l : Label} (h : Inv s) (hstep : s.step l = some s') : Inv s' := by
  cases l with
  | glBufferData data target usage moves =>
    obtain ⟨b, hb, rfl⟩ := Option.map_eq_some_iff.mp hstep
    have hdata := h.buffer
    rw [hb] at hdata
    obtain ⟨bytes, howns, hlatest⟩ := hdata
    obtain ⟨m', b', bytes', hcall, howns', hview, hframe⟩ :=
      glBufferData_view howns hlatest.alloc data target usage moves
    rw [hcall]
    refine ⟨h.fault, ⟨bytes', howns', ?_⟩, h.held.frame hframe, h.uploads⟩
    rw [hview]
    exact hlatest.glBufferData data target usage
  | commit => exact h.commit hstep
  | commitQueue =>
    obtain ⟨q, hq, rfl⟩ := Option.map_eq_some_iff.mp hstep
    refine ⟨h.fault, h.buffer, ?_, h.uploads⟩
    show Held _ _ q.commit.destroy
    have hheld := h.held
    rw [State.commands, hq] at hheld
    rw [destroy_commit]
    exact hheld
  | execute => exact h.execute hstep
  | destroyBuffer => exact h.destroyBuffer hstep
  | destroyQueue =>
    obtain ⟨q, hq, rfl⟩ := Option.map_eq_some_iff.mp hstep
    have hheld := h.held
    rw [State.commands, hq, Option.map_some, Option.getD_some] at hheld
    obtain ⟨m', hcancel, hnone, hbuffer⟩ := Held.cancelAll hheld
    rw [hcancel]
    exact ⟨h.fault, h.buffer.mono hbuffer, hnone, h.uploads⟩

/-- No access is a fault, what is uploaded is what the latest `GlBufferData` before the
commit has given, and a block is freed once, at the latest when all is over. -/
structure KeepsBlocks (s : State) : Prop where
  fault : s.fault = none
  uploads : ∀ u ∈ s.uploads, s.commits[u.1]? = some (some u.2)
  freed : ∀ a, s.memory.freed.count a ≤ 1
  gone : s.buffer = none → s.queue = none → ∀ a < s.memory.next, s.memory.freed.count a = 1

theorem keepsBlocks_run {id : UInt64} {ls : List Label} {s : State} (hrun : (machine id).run ls = some s) :
    KeepsBlocks s := by
  have h : Inv s := Machine.run_invariant (inv_init id) (fun _ _ _ h hstep => h.step hstep) hrun
  refine ⟨h.fault, h.uploads, fun a => List.nodup_iff_count_le_one.mp s.memory.once a, ?_⟩
  intro hbuffer hqueue a ha
  apply Memory.count_freed_eq_one ?_ ha
  intro o
  cases o with
  | buffer =>
    have hdata := h.buffer
    rw [hbuffer] at hdata
    exact hdata
  | command n =>
    apply h.held.others
    rw [State.commands, hqueue]
    exact List.not_mem_nil

/-- A block grows, and another is on its way when the buffer goes. -/
def goneOnTheWay : List Label :=
  [.glBufferData [1] 0x8892 0x88E4 false, .glBufferData [2, 3] 0x8892 0x88E4 true, .commit, .commitQueue,
    .execute, .glBufferData [4] 0x8892 0x88E4 false, .commit, .glBufferData [] 0x8892 0x88E4 false,
    .glBufferData [5] 0x8892 0x88E4 false, .destroyBuffer, .destroyQueue]

theorem keepsBlocks_goneOnTheWay : ∃ s, (machine 1).run goneOnTheWay = some s ∧
    s.uploads = [(0, .bufferData 0x8892 2 [2, 3] 0x88E4)] ∧ KeepsBlocks s := by
  obtain ⟨s, hs, huploads⟩ : ∃ s, (machine 1).run goneOnTheWay = some s ∧
      s.uploads = [(0, .bufferData 0x8892 2 [2, 3] 0x88E4)] := ⟨_, rfl, rfl⟩
  exact ⟨s, hs, huploads, keepsBlocks_run hs⟩

end BufferBlocks

end ZenRemote.Client
