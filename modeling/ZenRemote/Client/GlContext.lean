-- SUMMARY: What the calls on vertex arrays do to a GL context.
import Mathlib.Logic.Function.Basic
import ZenRemote.Client.Gl

/-!
# Vertex arrays in a GL context

The context knows the vertex array and the array buffer that are bound. Calls on
attributes are about the array that is bound, and the pointer of an attribute keeps the
array buffer that was bound when it was set. No name is deleted here, and all names that
are bound have been given by GL. Which calls on attributes GL refuses is a parameter.
-/

namespace ZenRemote.Client

/-- The parameters of `glVertexAttribPointer`, and the buffer. -/
structure Pointer (β : Type) where
  size : Int32
  type : UInt32
  normalized : Bool
  stride : Int32
  offset : UInt64
  buffer : β
  deriving DecidableEq

/-- The pointer with the buffer by its name. -/
def Pointer.named {β γ : Type} (name : β → γ) (p : Pointer β) : Pointer γ :=
  { p with buffer := name p.buffer }

/-- An attribute, without a pointer until one is set. -/
@[ext]
structure AttribState (β : Type) where
  enabled : Bool := false
  pointer : Option (Pointer β) := none
  deriving DecidableEq

/-- `GL_ARRAY_BUFFER`. -/
def glArrayBuffer : UInt32 := 0x8892

structure Context where
  boundArray : GLuint := 0
  arrayBuffer : GLuint := 0
  arrays : GLuint → UInt32 → AttribState GLuint := fun _ _ => {}

namespace Context

def modifyAttrib (c : Context) (index : UInt32) (f : AttribState GLuint → AttribState GLuint) : Context :=
  { c with
    arrays := Function.update c.arrays c.boundArray
      (Function.update (c.arrays c.boundArray) index (f (c.arrays c.boundArray index))) }

/-- Which calls on attributes GL accepts. A call that it refuses, for an index, a size, a
type or a stride that it does not allow, sets an error and changes nothing. -/
abbrev Acceptance := Context → GlCall → Bool

variable (accepts : Acceptance)

def issue (c : Context) : GlCall → Context
  | .bindVertexArray array => { c with boundArray := array }
  | .bindBuffer target buffer => if target = glArrayBuffer then { c with arrayBuffer := buffer } else c
  | .enableVertexAttribArray index =>
    if accepts c (.enableVertexAttribArray index) then
      c.modifyAttrib index fun a => { a with enabled := true }
    else c
  | .disableVertexAttribArray index =>
    if accepts c (.disableVertexAttribArray index) then
      c.modifyAttrib index fun a => { a with enabled := false }
    else c
  | .vertexAttribPointer index size type normalized stride offset =>
    if accepts c (.vertexAttribPointer index size type normalized stride offset) then
      c.modifyAttrib index fun a =>
        { a with pointer := some ⟨size, type, normalized, stride, offset, c.arrayBuffer⟩ }
    else c
  | _ => c

def issueAll (c : Context) (cs : List GlCall) : Context := cs.foldl (issue accepts) c

/-- The context after some calls, from the start. -/
def after (cs : List GlCall) : Context := issueAll accepts {} cs

/-- What OpenGL ES refuses, on an implementation with 16 attributes: any call without a
vertex array, indices from 16 on, sizes other than 1 to 4, unknown types, negative strides,
and offsets without a buffer. -/
def documented : Acceptance := fun c call =>
  decide (c.boundArray ≠ 0) && match call with
    | .enableVertexAttribArray index | .disableVertexAttribArray index => decide (index < 16)
    | .vertexAttribPointer index size type _ stride offset =>
      decide (index < 16 ∧ 1 ≤ size ∧ size ≤ 4 ∧ 0 ≤ stride ∧ (c.arrayBuffer ≠ 0 ∨ offset = 0)) &&
        (decide (0x1400 ≤ type ∧ type ≤ 0x1406 ∨ type = 0x140B ∨ type = 0x140C) ||
          decide (size = 4 ∧ (type = 0x8368 ∨ type = 0x8D9F)))
    | _ => true

variable {accepts} {c : Context}

@[simp] theorem issueAll_nil : c.issueAll accepts [] = c := rfl

@[simp] theorem issueAll_cons (d : GlCall) (ds : List GlCall) :
    c.issueAll accepts (d :: ds) = (c.issue accepts d).issueAll accepts ds := rfl

@[simp] theorem issueAll_append (ds ds' : List GlCall) :
    c.issueAll accepts (ds ++ ds') = (c.issueAll accepts ds).issueAll accepts ds' :=
  List.foldl_append

@[simp] theorem after_append (ds ds' : List GlCall) :
    after accepts (ds ++ ds') = (after accepts ds).issueAll accepts ds' :=
  issueAll_append ds ds'

theorem modifyAttrib_apply (index : UInt32) (f : AttribState GLuint → AttribState GLuint)
    (array : GLuint) (i : UInt32) : (c.modifyAttrib index f).arrays array i =
      if array = c.boundArray ∧ index = i then f (c.arrays array i) else c.arrays array i := by
  dsimp only [modifyAttrib]
  by_cases harray : array = c.boundArray
  · subst harray
    by_cases hi : index = i
    · subst hi
      simp
    · simp [hi, Function.update_of_ne (Ne.symm hi)]
  · rw [Function.update_of_ne harray, if_neg fun h => harray h.1]

@[simp] theorem boundArray_modifyAttrib (index : UInt32) (f : AttribState GLuint → AttribState GLuint) :
    (c.modifyAttrib index f).boundArray = c.boundArray := rfl

@[simp] theorem arrays_bindBuffer (target : UInt32) (buffer : GLuint) :
    (c.issue accepts (.bindBuffer target buffer)).arrays = c.arrays := by
  rw [issue]
  split
  · rfl
  · rfl

@[simp] theorem boundArray_bindBuffer (target : UInt32) (buffer : GLuint) :
    (c.issue accepts (.bindBuffer target buffer)).boundArray = c.boundArray := by
  rw [issue]
  split
  · rfl
  · rfl

end Context

end ZenRemote.Client
