-- SUMMARY: The client's GL buffers: pending data, and the closures of commit and destruction.
import ZenRemote.Client.Gl

/-!
# Buffers

The update thread collects data in a block that grows when it has to. A commit
hands the block over to its closure.
-/

namespace ZenRemote.Client

/-- The bytes of a block after `realloc`; those it gains are indeterminate. -/
def realloc (block : Bytes) (size : Nat) : Bytes :=
  block ++ List.replicate (size - block.length) 0

def memcpy (block data : Bytes) : Bytes := data ++ block.drop data.length

/-- A `GlBuffer`, with its pending state. -/
structure GlBuffer where
  id : UInt64
  /-- The block, empty for `NULL`. -/
  data : Bytes := []
  size : Nat := 0
  alloc : Nat := 0
  target : UInt32 := 0
  usage : UInt32 := 0
  dataDamaged : Bool := false
  deriving DecidableEq, Repr

namespace GlBuffer

structure RenderingState where
  bufferId : GLuint := 0
  target : UInt32 := 0
  deriving DecidableEq, Repr

/-- The closures that are pushed, with what they capture. -/
inductive Command where
  | bufferData (data : Bytes) (target : UInt32) (size : Nat) (usage : UInt32)
  | delete
  deriving DecidableEq, Repr

def glBufferData (b : GlBuffer) (data : Bytes) (target usage : UInt32) : GlBuffer :=
  let block := if b.alloc < data.length then realloc b.data data.length else b.data
  { b with
    data := memcpy block data
    alloc := if b.alloc < data.length then data.length else b.alloc
    size := data.length
    target := target
    usage := usage
    dataDamaged := true }

/-- The closures that `Commit` pushes. -/
def commitCommands (b : GlBuffer) : List Command :=
  if b.dataDamaged then [.bufferData b.data b.target b.size b.usage] else []

/-- The pending state after `Commit`. -/
def committed (b : GlBuffer) : GlBuffer :=
  if b.dataDamaged then { b with data := [], alloc := 0, size := 0, dataDamaged := false } else b

namespace Command

variable (gl : Driver)

def execute (t : Thread RenderingState) : Command → Thread RenderingState
  | .bufferData data target size usage =>
    let t := if t.rendering.bufferId = 0 then
        (t.issue .genBuffers).assign fun r => { r with bufferId := gl.name t.calls .genBuffers }
      else t
    let t := t.issue (.bindBuffer target t.rendering.bufferId)
    let t := t.issue (.bufferData target size (data.take size) usage)
    let t := t.issue (.bindBuffer target 0)
    t.assign fun r => { r with target := target }
  | .delete =>
    if t.rendering.bufferId = 0 then t else t.issue (.deleteBuffers t.rendering.bufferId)

end Command

@[simp] theorem dataDamaged_committed (b : GlBuffer) : b.committed.dataDamaged = false := by
  unfold committed
  split
  · rfl
  · rename_i hdamaged
    exact Bool.eq_false_iff.mpr hdamaged

@[simp] theorem target_committed (b : GlBuffer) : b.committed.target = b.target := by
  unfold committed
  split
  · rfl
  · rfl

/-- The pending data are those of `call`, the latest `GlBufferData` as a call of GL. -/
structure Latest (b : GlBuffer) (call : Option GlCall) : Prop where
  alloc : b.data.length = b.alloc
  size : b.size ≤ b.data.length
  call : b.dataDamaged = true → call = some (.bufferData b.target b.size (b.data.take b.size) b.usage)

theorem Latest.glBufferData {b : GlBuffer} {call : Option GlCall} (h : b.Latest call) (data : Bytes)
    (target usage : UInt32) :
    (b.glBufferData data target usage).Latest (some (.bufferData target data.length data usage)) := by
  have hlength : (b.glBufferData data target usage).data.length =
      (b.glBufferData data target usage).alloc := by
    have halloc := h.alloc
    dsimp only [GlBuffer.glBufferData]
    split
    · rw [memcpy, realloc, List.length_append, List.length_drop, List.length_append,
        List.length_replicate]
      omega
    · rw [memcpy, List.length_append, List.length_drop]
      omega
  refine ⟨hlength, ?_, fun _ => ?_⟩
  · show data.length ≤ (data ++ _).length
    rw [List.length_append]
    exact Nat.le_add_right _ _
  · show _ = some (GlCall.bufferData target data.length ((data ++ _).take data.length) usage)
    rw [List.take_left]

theorem Latest.committed {b : GlBuffer} {call : Option GlCall} (h : b.Latest call) :
    b.committed.Latest call := by
  unfold GlBuffer.committed
  split
  · exact ⟨rfl, Nat.le_refl 0, nofun⟩
  · exact h

theorem committed_committed (b : GlBuffer) : b.committed.committed = b.committed := by
  rw [committed, if_neg]
  simp

end GlBuffer

end ZenRemote.Client
