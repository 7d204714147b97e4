-- SUMMARY: The client's rendering units and virtual objects, at the root of what is drawn.
import ZenRemote.Client.Gl
import ZenRemote.Lib.Heap

/-!
# Rendering units and virtual objects

A commit starts at a virtual object and goes down to the rendering units, their
techniques, and what the techniques draw with.
-/

namespace ZenRemote.Client

/-- A `RenderingUnit`, with its pending state. -/
structure RenderingUnit where
  id : UInt64
  glBaseTechnique : WeakPtr := none
  deriving DecidableEq, Repr

namespace RenderingUnit

structure RenderingState where
  glBaseTechnique : WeakPtr := none
  deriving DecidableEq, Repr

inductive Command where
  | technique (technique : WeakPtr)
  | delete
  deriving DecidableEq, Repr

def setGlBaseTechnique (u : RenderingUnit) (technique : WeakPtr) : RenderingUnit :=
  { u with glBaseTechnique := technique }

def commitCommands (u : RenderingUnit) : List Command := [.technique u.glBaseTechnique]

def Command.execute (t : Thread RenderingState) : Command → Thread RenderingState
  | .technique p => t.assign fun r => { r with glBaseTechnique := p }
  | .delete => t

end RenderingUnit

/-- A `VirtualObject`, with its pending state. -/
structure VirtualObject where
  id : UInt64
  renderingUnits : List WeakPtr := []
  deriving DecidableEq, Repr

namespace VirtualObject

/-- The bytes of a `glm::vec3` and, in the order x y z w, of a `glm::quat`. -/
structure RenderingState where
  commited : Bool := false
  renderingUnits : List WeakPtr := []
  position : Bytes := List.replicate 12 0
  quaternion : Bytes := List.replicate 12 0 ++ [0, 0, 0x80, 0x3f]
  deriving DecidableEq, Repr

inductive Command where
  | commit (renderingUnits : List WeakPtr)
  | move (position quaternion : Bytes)
  | delete
  deriving DecidableEq, Repr

def addRenderingUnit (o : VirtualObject) (unit : WeakPtr) : VirtualObject :=
  { o with renderingUnits := o.renderingUnits ++ [unit] }

/-- The pending state after `Commit`: `ForEachWeakPtr` removes what has expired. -/
def committed (o : VirtualObject) (expired : WeakPtr → Bool) : VirtualObject :=
  { o with renderingUnits := o.renderingUnits.filter fun p => !expired p }

def commitCommands (o : VirtualObject) (expired : WeakPtr → Bool) : List Command :=
  [.commit (o.committed expired).renderingUnits]

def moveCommands (position quaternion : Bytes) : List Command := [.move position quaternion]

def Command.execute (t : Thread RenderingState) : Command → Thread RenderingState
  | .commit units =>
    let t := if t.rendering.commited then t else t.assign fun r => { r with commited := true }
    t.assign fun r => { r with renderingUnits := units }
  | .move position quaternion =>
    (t.assign fun r => { r with position := position }).assign
      fun r => { r with quaternion := quaternion }
  | .delete => t

end VirtualObject

end ZenRemote.Client
