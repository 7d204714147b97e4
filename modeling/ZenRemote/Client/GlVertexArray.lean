-- SUMMARY: The client's vertex arrays: attributes with damage flags, and the closure that replays the damaged ones.
import ZenRemote.Client.Gl
import ZenRemote.Lib.AssocList
import ZenRemote.Lib.Heap

/-!
# Vertex arrays

The calls on a vertex array are merged by attribute. A commit does nothing unless
an attribute has changed since the last one; otherwise it commits the buffers of
all attributes and replays those that have changed.
-/

namespace ZenRemote.Client

structure VertexAttrib where
  glBuffer : WeakPtr := none
  offset : UInt64 := 0
  size : Int32 := 0
  type : UInt32 := 0
  stride : Int32 := 0
  normalized : Bool := false
  enabled : Bool := false
  filled : Bool := false
  damaged : Bool := false
  deriving DecidableEq, Repr

/-- A `GlVertexArray`, with its pending state. -/
structure GlVertexArray where
  id : UInt64
  attributes : AList fun _ : UInt32 => VertexAttrib := ∅
  damaged : Bool := false

namespace GlVertexArray

structure RenderingState where
  vertexArrayId : GLuint := 0
  deriving DecidableEq, Repr

inductive Command where
  | replay (attributes : AList fun _ : UInt32 => VertexAttrib)
  | delete

/-- `insert` and an update of what is then under the key. -/
def updateAttribute (v : GlVertexArray) (index : UInt32) (f : VertexAttrib → VertexAttrib) :
    GlVertexArray :=
  { v with
    attributes := v.attributes.insert index (f ((v.attributes.lookup index).getD {}))
    damaged := true }

def glEnableVertexAttribArray (v : GlVertexArray) (index : UInt32) : GlVertexArray :=
  v.updateAttribute index fun a => { a with enabled := true, damaged := true }

def glDisableVertexAttribArray (v : GlVertexArray) (index : UInt32) : GlVertexArray :=
  v.updateAttribute index fun a => { a with enabled := false, damaged := true }

def glVertexAttribPointer (v : GlVertexArray) (index : UInt32) (size : Int32) (type : UInt32)
    (normalized : Bool) (stride : Int32) (offset : UInt64) (glBuffer : WeakPtr) : GlVertexArray :=
  v.updateAttribute index fun a => { a with
    size := size, type := type, normalized := normalized, stride := stride, offset := offset
    glBuffer := glBuffer, filled := true, damaged := true }

/-- The buffers of all attributes. -/
def buffers (v : GlVertexArray) : List WeakPtr := v.attributes.entries.map fun e => e.2.glBuffer

theorem mem_buffers_updateAttribute {v : GlVertexArray} {index : UInt32}
    {f : VertexAttrib → VertexAttrib} {p : WeakPtr} (hp : p ∈ (v.updateAttribute index f).buffers) :
    p = (f ((v.attributes.lookup index).getD {})).glBuffer ∨ p ∈ v.buffers := by
  rw [buffers, updateAttribute, AList.entries_insert, List.map_cons] at hp
  cases hp with
  | head => exact .inl rfl
  | tail _ hp =>
    obtain ⟨e, he, rfl⟩ := List.mem_map.mp hp
    exact .inr (List.mem_map_of_mem ((List.kerase_sublist _ _).subset he))

theorem lookup_updateAttribute (v : GlVertexArray) (index : UInt32) (f : VertexAttrib → VertexAttrib)
    (i : UInt32) : (v.updateAttribute index f).attributes.lookup i =
      if index = i then some (f ((v.attributes.lookup i).getD {})) else v.attributes.lookup i := by
  rw [updateAttribute]
  split
  · rename_i hi
    subst hi
    exact AList.lookup_insert _
  · rename_i hi
    exact AList.lookup_insert_ne (Ne.symm hi)

/-- The buffer of an attribute, if it has one. -/
theorem mem_buffers_of_lookup {v : GlVertexArray} {index : UInt32} {a : Nat}
    (ha : some a = ((v.attributes.lookup index).getD {}).glBuffer) : some a ∈ v.buffers := by
  cases hlookup : v.attributes.lookup index with
  | none =>
    rw [hlookup] at ha
    cases ha
  | some attrib =>
    rw [hlookup] at ha
    exact List.mem_map.mpr ⟨⟨index, attrib⟩, AList.mem_lookup_iff.mp hlookup, ha.symm⟩

/-- The closures that `Commit` pushes after those of the buffers. -/
def commitCommands (v : GlVertexArray) : List Command :=
  if v.damaged then [.replay v.attributes] else []

/-- The pending state after `Commit`. -/
def committed (v : GlVertexArray) : GlVertexArray :=
  if v.damaged then { v with
    attributes := v.attributes.mapValues fun a => { a with damaged := false }
    damaged := false }
  else v

/-- The calls for one attribute. `lockBuffer` gives `target()` and `buffer_id()`
of a buffer that is alive. -/
def attributeCalls (lockBuffer : WeakPtr → Option (UInt32 × GLuint)) (index : UInt32)
    (a : VertexAttrib) : List GlCall :=
  if !a.damaged then [] else
  (if a.enabled then .enableVertexAttribArray index else .disableVertexAttribArray index) ::
    if !a.filled then [] else
    match lockBuffer a.glBuffer with
    | none => []
    | some (target, bufferId) =>
      [.bindBuffer target bufferId,
        .vertexAttribPointer index a.size a.type a.normalized a.stride a.offset,
        .bindBuffer target 0]

namespace Command

variable (gl : Driver)

def execute (lockBuffer : WeakPtr → Option (UInt32 × GLuint)) (t : Thread RenderingState) :
    Command → Thread RenderingState
  | .replay attributes =>
    let t := if t.rendering.vertexArrayId = 0 then
        (t.issue .genVertexArrays).assign fun r =>
          { r with vertexArrayId := gl.name t.calls .genVertexArrays }
      else t
    let t := t.issue (.bindVertexArray t.rendering.vertexArrayId)
    let t := t.issueAll (attributes.entries.flatMap fun e => attributeCalls lockBuffer e.1 e.2)
    t.issue (.bindVertexArray 0)
  | .delete =>
    if t.rendering.vertexArrayId = 0 then t
    else t.issue (.deleteVertexArrays t.rendering.vertexArrayId)

end Command

@[simp] theorem damaged_committed (v : GlVertexArray) : v.committed.damaged = false := by
  unfold committed
  split
  · rfl
  · rename_i hdamaged
    exact Bool.eq_false_iff.mpr hdamaged

theorem lookup_committed (v : GlVertexArray) (i : UInt32) : v.committed.attributes.lookup i =
    if v.damaged then (v.attributes.lookup i).map fun a => { a with damaged := false }
    else v.attributes.lookup i := by
  unfold committed
  split
  · exact AList.lookup_mapValues _ _ _
  · rfl

@[simp] theorem buffers_committed (v : GlVertexArray) : v.committed.buffers = v.buffers := by
  unfold committed
  split
  · rw [buffers, buffers, AList.mapValues, List.map_map]
    rfl
  · rfl

end GlVertexArray

end ZenRemote.Client
