-- SUMMARY: What a vertex array's commits replay leaves it in GL as its calls would, issued one by one.
import ZenRemote.Client.GlBuffer
import ZenRemote.Client.GlContext
import ZenRemote.Client.GlVertexArray
import ZenRemote.Lib.Pipeline

/-!
# The replay of a vertex array

A vertex array merges the calls on an attribute. A commit replays the attributes that
have changed since the last one, in the order in which the map of them is iterated,
after the data of their buffers. Calls on different attributes commute, and what has not
changed is what an earlier commit has left, so in the end the attributes are as the calls
in their order leave them, as far as GL accepts the last call of each kind. Where it
refuses the last one, the calls issued one by one keep an earlier one that the merged
calls have lost.
-/

namespace ZenRemote.Client.GlVertexArray

/-- A call on a vertex array, with the address of the buffer. -/
inductive ArrayCall where
  | enable (index : UInt32)
  | disable (index : UInt32)
  | pointer (index : UInt32) (args : Pointer Nat)
  deriving DecidableEq

namespace ArrayCall

def apply (v : GlVertexArray) : ArrayCall → GlVertexArray
  | enable index => v.glEnableVertexAttribArray index
  | disable index => v.glDisableVertexAttribArray index
  | pointer index p => v.glVertexAttribPointer index p.size p.type p.normalized p.stride p.offset
      (some p.buffer)

/-- The call, issued to GL with the name of the buffer. -/
def toGl (name : Nat → GLuint) : ArrayCall → List GlCall
  | enable index => [.enableVertexAttribArray index]
  | disable index => [.disableVertexAttribArray index]
  | pointer index p =>
    [.bindBuffer glArrayBuffer (name p.buffer),
      .vertexAttribPointer index p.size p.type p.normalized p.stride p.offset,
      .bindBuffer glArrayBuffer 0]

end ArrayCall

/-- The calls, issued in their order on the vertex array `array`. -/
def direct (array : GLuint) (name : Nat → GLuint) (calls : List ArrayCall) : List GlCall :=
  .bindVertexArray array :: (calls.flatMap (ArrayCall.toGl name) ++ [.bindVertexArray 0])

/-- An order in which the maps of attributes are iterated. -/
structure Order where
  arrange : (AList fun _ : UInt32 => VertexAttrib) → AList fun _ : UInt32 => VertexAttrib
  perm : ∀ attributes, (arrange attributes).entries.Perm attributes.entries

/-- A vertex array in the update thread, with the buffers by their addresses. The last
fields record which buffers have received data, and the calls on the array. -/
structure Recorded where
  array : GlVertexArray
  buffers : Nat → GlBuffer
  received : List Nat := []
  calls : List ArrayCall := []

inductive Update where
  | call (c : ArrayCall)
  | bufferData (b : Nat) (data : Bytes) (target usage : UInt32)
  /-- From now on maps are iterated in another order. -/
  | reorder (order : Order)

/-- A closure of the array or of a buffer. -/
inductive Queued where
  | buffer (b : Nat) (c : GlBuffer.Command)
  | array (c : Command)

def update (order : Order) (p : Recorded) : Update → Option (Order × Recorded)
  | .call c => some (order, { p with array := c.apply p.array, calls := p.calls ++ [c] })
  | .bufferData b data target usage => some (order, { p with
      buffers := Function.update p.buffers b ((p.buffers b).glBufferData data target usage)
      received := b :: p.received })
  | .reorder order => some (order, p)

/-- The loop of `Commit` over the buffers of the attributes. -/
def commitBuffers (buffers : Nat → GlBuffer) : List WeakPtr → List Queued × (Nat → GlBuffer)
  | [] => ([], buffers)
  | none :: ps => commitBuffers buffers ps
  | some b :: ps =>
    let rest := commitBuffers (Function.update buffers b (buffers b).committed) ps
    ((buffers b).commitCommands.map (.buffer b) ++ rest.1, rest.2)

namespace Recorded

def committedBuffers (order : Order) (p : Recorded) : List Queued × (Nat → GlBuffer) :=
  if p.array.damaged then
    commitBuffers p.buffers ((order.arrange p.array.attributes).entries.map fun e => e.2.glBuffer)
  else ([], p.buffers)

def commands (order : Order) (p : Recorded) : List Queued :=
  (p.committedBuffers order).1 ++ p.array.commitCommands.map .array

def committed (order : Order) (p : Recorded) : Recorded :=
  { p with array := p.array.committed, buffers := (p.committedBuffers order).2 }

end Recorded

/-- The rendering thread, with the rendering states of the array and of the buffers. -/
structure Rendered where
  calls : List GlCall := []
  array : RenderingState := {}
  buffers : Nat → GlBuffer.RenderingState := fun _ => {}

namespace Rendered

def name (r : Rendered) (b : Nat) : GLuint := (r.buffers b).bufferId

/-- `target()` and `buffer_id()` of a buffer, all of which are alive. -/
def lockBuffer (r : Rendered) (p : WeakPtr) : Option (UInt32 × GLuint) :=
  p.map fun b => ((r.buffers b).target, (r.buffers b).bufferId)

/-- The state of the vertex array in GL. -/
def attribs (accepts : Context.Acceptance) (r : Rendered) : UInt32 → AttribState GLuint :=
  (Context.after accepts r.calls).arrays r.array.vertexArrayId

def execute (gl : Driver) (order : Order) (r : Rendered) : Queued → Rendered
  | .buffer b c =>
    let t := c.execute gl ⟨r.calls, r.buffers b, []⟩
    { r with calls := t.calls, buffers := Function.update r.buffers b t.rendering }
  | .array (.replay attributes) =>
    let t := (Command.replay (order.arrange attributes)).execute gl r.lockBuffer ⟨r.calls, r.array, []⟩
    { r with calls := t.calls, array := t.rendering }
  | .array .delete =>
    let t := Command.delete.execute gl r.lockBuffer ⟨r.calls, r.array, []⟩
    { r with calls := t.calls, array := t.rendering }

end Rendered

def pipeline (gl : Driver) (order : Order) (id : UInt64) (buffers : Nat → UInt64) :
    Pipeline Order Recorded Update Queued Rendered Empty where
  env := order
  pending := { array := { id := id }, buffers := fun b => { id := buffers b } }
  rendering := {}
  update := update
  commands := Recorded.commands
  committed := Recorded.committed
  execute := Rendered.execute gl
  render := fun _ r _ => r

-- ---------------------------------------------------------------------------
-- Calls in their order
-- ---------------------------------------------------------------------------

namespace ArrayCall

def index : ArrayCall → UInt32
  | enable index => index
  | disable index => index
  | pointer index _ => index

/-- What the call does to the attribute. -/
def attrib (a : AttribState Nat) : ArrayCall → AttribState Nat
  | enable _ => { a with enabled := true }
  | disable _ => { a with enabled := false }
  | pointer _ p => { a with pointer := some p }

end ArrayCall

namespace ArrayCall

/-- The call, if it enables or disables the attribute `i`. -/
def switch? (i : UInt32) : ArrayCall → Option Bool
  | enable index => if index = i then some true else none
  | disable index => if index = i then some false else none
  | pointer .. => none

/-- The call, if it sets the pointer of the attribute `i`. -/
def pointer? (i : UInt32) : ArrayCall → Option (Pointer Nat)
  | pointer index p => if index = i then some p else none
  | _ => none

variable {i : UInt32} {c : ArrayCall}

theorem switch?_of_ne (h : c.index ≠ i) : c.switch? i = none := by
  cases c with
  | enable index | disable index => exact if_neg h
  | pointer index p => rfl

theorem pointer?_of_ne (h : c.index ≠ i) : c.pointer? i = none := by
  cases c with
  | enable index | disable index => rfl
  | pointer index p => exact if_neg h

end ArrayCall

def switches (calls : List ArrayCall) (i : UInt32) : List Bool := calls.filterMap (ArrayCall.switch? i)

def pointers (calls : List ArrayCall) (i : UInt32) : List (Pointer Nat) :=
  calls.filterMap (ArrayCall.pointer? i)

/-- What the calls make of the attribute `i` if none is refused, with buffers by their
addresses. -/
def effect (calls : List ArrayCall) (i : UInt32) : AttribState Nat where
  enabled := (switches calls i).getLast?.getD false
  pointer := (pointers calls i).getLast?

theorem effect_concat (calls : List ArrayCall) (c : ArrayCall) (i : UInt32) :
    effect (calls ++ [c]) i = if c.index = i then c.attrib (effect calls i) else effect calls i := by
  simp only [effect, switches, pointers, List.filterMap_append]
  split
  · rename_i hi
    subst hi
    cases c with
    | enable index => simp [ArrayCall.switch?, ArrayCall.pointer?, ArrayCall.attrib, ArrayCall.index]
    | disable index => simp [ArrayCall.switch?, ArrayCall.pointer?, ArrayCall.attrib, ArrayCall.index]
    | pointer index p => simp [ArrayCall.switch?, ArrayCall.pointer?, ArrayCall.attrib, ArrayCall.index]
  · rename_i hi
    simp [ArrayCall.switch?_of_ne hi, ArrayCall.pointer?_of_ne hi]

/-- Only the calls on an attribute count for it. -/
theorem switches_filter (calls : List ArrayCall) (i : UInt32) :
    switches (calls.filter fun c => c.index = i) i = switches calls i := by
  rw [switches, List.filterMap_filter, switches]
  congr
  funext c
  by_cases hi : c.index = i
  · simp [hi]
  · simp [hi, ArrayCall.switch?_of_ne hi]

theorem pointers_filter (calls : List ArrayCall) (i : UInt32) :
    pointers (calls.filter fun c => c.index = i) i = pointers calls i := by
  rw [pointers, List.filterMap_filter, pointers]
  congr
  funext c
  by_cases hi : c.index = i
  · simp [hi]
  · simp [hi, ArrayCall.pointer?_of_ne hi]

-- ---------------------------------------------------------------------------
-- Calls that may be refused
-- ---------------------------------------------------------------------------

/-- `new` is what the settings `xs` make of `old`, as far as it is certain: the last
setting counts if it is accepted, and none counts if all are refused. -/
structure Settled {α β : Type} (accepted refused : α → Prop) (set : α → β) (xs : List α)
    (old new : β) : Prop where
  last : ∀ x ∈ xs.getLast?, accepted x → new = set x
  refused : (∀ x ∈ xs, refused x) → new = old

/-- What the settings make of a value is certain. -/
def Decided {α : Type} (accepted refused : α → Prop) (xs : List α) : Prop :=
  (∀ x ∈ xs.getLast?, accepted x) ∨ ∀ x ∈ xs, refused x

namespace Settled

variable {α β : Type} {accepted accepted' refused : α → Prop} {set set' : α → β} {xs : List α}
  {old mid new new' : β}

theorem nil : Settled accepted refused set [] old old := ⟨nofun, fun _ => rfl⟩

theorem concat (h : Settled accepted refused set xs old mid) {x : α} {taken : Bool}
    (haccepted : accepted x → taken = true) (hrefused : refused x → taken = false) :
    Settled accepted refused set (xs ++ [x]) old (if taken then set x else mid) where
  last := by
    intro y hy hy'
    obtain rfl : x = y := by simpa using hy
    rw [haccepted hy', if_pos rfl]
  refused := by
    intro hall
    rw [hrefused (hall x (by simp)), if_neg Bool.false_ne_true]
    exact h.refused fun y hy => hall y (List.mem_append_left _ hy)

/-- Only the last setting has to be the same. -/
theorem congr (h : Settled accepted refused set xs old new)
    (hlast : ∀ x ∈ xs.getLast?, (accepted' x → accepted x) ∧ set x = set' x) :
    Settled accepted' refused set' xs old new :=
  ⟨fun x hx haccepted => (h.last x hx ((hlast x hx).1 haccepted)).trans (hlast x hx).2, h.refused⟩

theorem eq (h : Settled accepted refused set xs old new) (h' : Settled accepted refused set xs old new')
    (hdecided : Decided accepted refused xs) : new = new' := by
  rcases hdecided with hlast | hrefused
  · cases hx : xs.getLast? with
    | none =>
      have hnil : xs = [] := List.getLast?_eq_none_iff.mp hx
      have hall : ∀ x ∈ xs, refused x := by simp [hnil]
      rw [h.refused hall, h'.refused hall]
    | some x => rw [h.last x hx (hlast x hx), h'.last x hx (hlast x hx)]
  · rw [h.refused hrefused, h'.refused hrefused]

/-- Settings `ys` that repeat at most the last of `xs` make up for those since `xs'`. -/
theorem replay {xs' ys : List α} (h : Settled accepted refused set xs' old mid)
    (hreplay : Settled accepted refused set ys mid new) (hearlier : xs' <+: xs)
    (hys : ys = [] ∧ xs = xs' ∨ ys = xs.getLast?.toList) :
    Settled accepted refused set xs old new := by
  rcases hys with ⟨rfl, rfl⟩ | rfl
  · rw [hreplay.refused nofun]
    exact h
  · refine ⟨fun x hx => hreplay.last x ?_, fun hall => ?_⟩
    · rw [Option.mem_def.mp hx]
      rfl
    · have hmem : ∀ x ∈ xs.getLast?.toList, refused x :=
        fun x hx => hall x (List.mem_of_getLast? (Option.mem_toList.mp hx))
      rw [hreplay.refused hmem]
      exact h.refused fun x hx => hall x (hearlier.subset hx)

end Settled

def switchCall (i : UInt32) (on : Bool) : GlCall :=
  if on then .enableVertexAttribArray i else .disableVertexAttribArray i

def pointerCall (i : UInt32) (p : Pointer Nat) : GlCall :=
  .vertexAttribPointer i p.size p.type p.normalized p.stride p.offset

section Acceptance

variable (accepts : Context.Acceptance)

/-- GL accepts the call wherever a vertex array is bound. -/
def AcceptsSwitch (i : UInt32) (on : Bool) : Prop :=
  ∀ c : Context, c.boundArray ≠ 0 → accepts c (switchCall i on) = true

/-- GL accepts the call wherever a vertex array and a buffer are bound. -/
def AcceptsPointer (i : UInt32) (p : Pointer Nat) : Prop :=
  ∀ c : Context, c.boundArray ≠ 0 → c.arrayBuffer ≠ 0 → accepts c (pointerCall i p) = true

def Refuses (call : GlCall) : Prop := ∀ c : Context, accepts c call = false

/-- GL accepts the last call that enables or disables the attribute, or refuses all of them. -/
def SwitchDecided (calls : List ArrayCall) (i : UInt32) : Prop :=
  Decided (AcceptsSwitch accepts i) (fun on => Refuses accepts (switchCall i on)) (switches calls i)

/-- GL accepts the last pointer of the attribute, or refuses all of them. -/
def PointerDecided (calls : List ArrayCall) (i : UInt32) : Prop :=
  Decided (AcceptsPointer accepts i) (fun p => Refuses accepts (pointerCall i p)) (pointers calls i)

/-- `new` is what the calls, issued in their order, may make of the attribute `i`. -/
structure Issued (name : Nat → GLuint) (calls : List ArrayCall) (i : UInt32)
    (old new : AttribState GLuint) : Prop where
  switch : Settled (AcceptsSwitch accepts i) (fun on => Refuses accepts (switchCall i on)) (fun on => on)
    (switches calls i) old.enabled new.enabled
  pointer : Settled (fun p => AcceptsPointer accepts i p ∧ name p.buffer ≠ 0)
    (fun p => Refuses accepts (pointerCall i p)) (fun p => some (p.named name))
    (pointers calls i) old.pointer new.pointer
  /-- What is never enabled stays disabled, whatever is refused. -/
  off : old.enabled = false → (∀ on ∈ switches calls i, on = false) → new.enabled = false

end Acceptance

variable {accepts : Context.Acceptance}

theorem Issued.nil {name : Nat → GLuint} {i : UInt32} {a : AttribState GLuint} :
    Issued accepts name [] i a a :=
  ⟨.nil, .nil, fun h _ => h⟩

/-- A call on another attribute. -/
theorem Issued.other {name : Nat → GLuint} {calls : List ArrayCall} {i : UInt32}
    {old new : AttribState GLuint} (h : Issued accepts name calls i old new) {d : ArrayCall}
    (hd : d.index ≠ i) : Issued accepts name (calls ++ [d]) i old new := by
  have hswitches : switches (calls ++ [d]) i = switches calls i := by
    simp [switches, ArrayCall.switch?_of_ne hd]
  have hpointers : pointers (calls ++ [d]) i = pointers calls i := by
    simp [pointers, ArrayCall.pointer?_of_ne hd]
  exact ⟨hswitches ▸ h.switch, hpointers ▸ h.pointer, hswitches ▸ h.off⟩

theorem issue_switchCall (c : Context) (index : UInt32) (on : Bool) :
    (c.issue accepts (switchCall index on)).boundArray = c.boundArray ∧
      ∀ i, (c.issue accepts (switchCall index on)).arrays c.boundArray i =
        if index = i then { c.arrays c.boundArray i with
          enabled := if accepts c (switchCall index on) then on else (c.arrays c.boundArray i).enabled }
        else c.arrays c.boundArray i := by
  have hissue : c.issue accepts (switchCall index on) = if accepts c (switchCall index on) then
      c.modifyAttrib index fun a => { a with enabled := on } else c := by
    cases on with
    | true => rfl
    | false => rfl
  rw [hissue]
  cases accepts c (switchCall index on) with
  | true =>
    refine ⟨rfl, fun i => ?_⟩
    rw [if_pos rfl, Context.modifyAttrib_apply]
    simp only [true_and, if_true]
  | false => exact ⟨rfl, fun i => (ite_self _).symm⟩

theorem issueAll_pointer (c : Context) (name : Nat → GLuint) (index : UInt32) (p : Pointer Nat) :
    let bound := c.issue accepts (.bindBuffer glArrayBuffer (name p.buffer))
    (c.issueAll accepts ((ArrayCall.pointer index p).toGl name)).boundArray = c.boundArray ∧
      ∀ i, (c.issueAll accepts ((ArrayCall.pointer index p).toGl name)).arrays c.boundArray i =
        if index = i then { c.arrays c.boundArray i with
          pointer := if accepts bound (pointerCall index p) then some (p.named name)
            else (c.arrays c.boundArray i).pointer }
        else c.arrays c.boundArray i := by
  intro bound
  have hbound : bound = { c with arrayBuffer := name p.buffer } := by
    rw [show bound = if glArrayBuffer = glArrayBuffer then { c with arrayBuffer := name p.buffer } else c
      from rfl, if_pos rfl]
  have hissue : c.issueAll accepts ((ArrayCall.pointer index p).toGl name) =
      (bound.issue accepts (pointerCall index p)).issue accepts (.bindBuffer glArrayBuffer 0) := rfl
  have hpointer : bound.issue accepts (pointerCall index p) =
      if accepts bound (pointerCall index p) then
        bound.modifyAttrib index fun a => { a with pointer := some (p.named name) } else bound := by
    rw [hbound]
    rfl
  rw [hissue, Context.boundArray_bindBuffer, Context.arrays_bindBuffer, hpointer]
  cases accepts bound (pointerCall index p) with
  | true =>
    refine ⟨by rw [if_pos rfl, Context.boundArray_modifyAttrib, hbound], fun i => ?_⟩
    rw [if_pos rfl, Context.modifyAttrib_apply, hbound]
    simp only [true_and, if_true]
  | false =>
    rw [hbound]
    exact ⟨rfl, fun i => (ite_self _).symm⟩

section Concat

variable {name : Nat → GLuint} {calls : List ArrayCall} {i : UInt32} {old : AttribState GLuint} {c : Context}

/-- A call that enables or disables the attribute. -/
theorem Issued.concat_switch (hc : c.boundArray ≠ 0)
    (h : Issued accepts name calls i old (c.arrays c.boundArray i)) {d : ArrayCall} {on : Bool}
    (hon : d.switch? i = some on) (hpointer : d.pointer? i = none) :
    Issued accepts name (calls ++ [d]) i old ((c.issue accepts (switchCall i on)).arrays c.boundArray i) := by
  have hswitches : switches (calls ++ [d]) i = switches calls i ++ [on] := by
    simp [switches, hon]
  have hpointers : pointers (calls ++ [d]) i = pointers calls i := by
    simp [pointers, hpointer]
  rw [(issue_switchCall c i on).2, if_pos rfl]
  refine ⟨?_, ?_, fun hold hall => ?_⟩
  · rw [hswitches]
    exact h.switch.concat (fun haccepts => haccepts c hc) fun hrefuses => hrefuses c
  · rw [hpointers]
    exact h.pointer
  · rw [hswitches] at hall
    have hmid := h.off hold fun x hx => hall x (List.mem_append_left _ hx)
    rw [hall on (by simp), hmid, ite_self]

theorem Issued.concat_pointer (hc : c.boundArray ≠ 0)
    (h : Issued accepts name calls i old (c.arrays c.boundArray i)) (p : Pointer Nat) :
    Issued accepts name (calls ++ [.pointer i p]) i old
      ((c.issueAll accepts ((ArrayCall.pointer i p).toGl name)).arrays c.boundArray i) := by
  have hswitches : switches (calls ++ [.pointer i p]) i = switches calls i := by
    simp [switches, ArrayCall.switch?]
  have hpointers : pointers (calls ++ [.pointer i p]) i = pointers calls i ++ [p] := by
    simp [pointers, ArrayCall.pointer?]
  rw [(issueAll_pointer c name i p).2, if_pos rfl]
  refine ⟨hswitches ▸ h.switch, ?_, hswitches ▸ h.off⟩
  rw [hpointers]
  refine h.pointer.concat (fun haccepts => haccepts.1 _ ?_ ?_) fun hrefuses => hrefuses _
  · rw [Context.boundArray_bindBuffer]
    exact hc
  · exact haccepts.2

/-- One more call, issued to GL. -/
theorem Issued.concat (hc : c.boundArray ≠ 0)
    (h : Issued accepts name calls i old (c.arrays c.boundArray i)) (d : ArrayCall) :
    Issued accepts name (calls ++ [d]) i old
      ((c.issueAll accepts (d.toGl name)).arrays c.boundArray i) := by
  by_cases hi : d.index = i
  · cases d with
    | enable index =>
      obtain rfl : index = i := hi
      have hon : (ArrayCall.enable index).switch? index = some true := if_pos rfl
      exact h.concat_switch hc hon rfl
    | disable index =>
      obtain rfl : index = i := hi
      have hon : (ArrayCall.disable index).switch? index = some false := if_pos rfl
      exact h.concat_switch hc hon rfl
    | pointer index p =>
      obtain rfl : index = i := hi
      exact h.concat_pointer hc p
  · have hsame : (c.issueAll accepts (d.toGl name)).arrays c.boundArray i = c.arrays c.boundArray i := by
      cases d with
      | enable index => exact ((issue_switchCall c index true).2 i).trans (if_neg hi)
      | disable index => exact ((issue_switchCall c index false).2 i).trans (if_neg hi)
      | pointer index p => exact ((issueAll_pointer c name index p).2 i).trans (if_neg hi)
    rw [hsame]
    exact h.other hi

end Concat

theorem boundArray_toGl (c : Context) (name : Nat → GLuint) (d : ArrayCall) :
    (c.issueAll accepts (d.toGl name)).boundArray = c.boundArray := by
  cases d with
  | enable index => exact (issue_switchCall c index true).1
  | disable index => exact (issue_switchCall c index false).1
  | pointer index p => exact (issueAll_pointer c name index p).1

theorem issueAll_calls (name : Nat → GLuint) {c : Context} (hc : c.boundArray ≠ 0)
    (calls : List ArrayCall) :
    (c.issueAll accepts (calls.flatMap (ArrayCall.toGl name))).boundArray = c.boundArray ∧
      ∀ i, Issued accepts name calls i (c.arrays c.boundArray i)
        ((c.issueAll accepts (calls.flatMap (ArrayCall.toGl name))).arrays c.boundArray i) := by
  induction calls using List.reverseRecOn with
  | nil => exact ⟨rfl, fun _ => .nil⟩
  | append_singleton calls d ih =>
    obtain ⟨hbound, hissued⟩ := ih
    rw [List.flatMap_append, List.flatMap_singleton, Context.issueAll_append]
    refine ⟨(boundArray_toGl _ name d).trans hbound, fun i => ?_⟩
    have hnext := Issued.concat (hbound.symm ▸ hc) (hbound.symm ▸ hissued i) d
    rwa [hbound] at hnext

/-- Issued one by one, the calls leave of each attribute what they may make of it. -/
theorem issued_direct {array : GLuint} (name : Nat → GLuint) {calls : List ArrayCall}
    (harray : calls ≠ [] → array ≠ 0) (i : UInt32) : Issued accepts name calls i {}
      ((Context.after accepts (direct array name calls)).arrays array i) := by
  by_cases hcalls : calls = []
  · subst hcalls
    exact .nil
  · show Issued accepts name calls i {} ((Context.issueAll accepts _ (_ ++ _)).arrays array i)
    rw [Context.issueAll_append]
    exact (issueAll_calls name (c := Context.issue accepts {} (.bindVertexArray array))
      (harray hcalls) calls).2 i

-- ---------------------------------------------------------------------------
-- Attributes in any order
-- ---------------------------------------------------------------------------

/-- The state that a replay of the attribute gives, with its buffer by its address. -/
def state (a : VertexAttrib) : AttribState Nat where
  enabled := a.enabled
  pointer := if a.filled then
      a.glBuffer.map fun b => ⟨a.size, a.type, a.normalized, a.stride, a.offset, b⟩
    else none

/-- A replay of the attribute, as calls on the array. -/
def merged (index : UInt32) (a : VertexAttrib) : List ArrayCall :=
  if a.damaged then
    (if a.enabled then .enable index else .disable index) ::
      ((state a).pointer.map (.pointer index)).toList
  else []

theorem attributeCalls_eq {r : Rendered} {index : UInt32} {a : VertexAttrib}
    (htarget : ∀ b, a.glBuffer = some b → (r.buffers b).target = glArrayBuffer) :
    attributeCalls r.lockBuffer index a = (merged index a).flatMap (ArrayCall.toGl r.name) := by
  rw [attributeCalls, merged]
  cases a.damaged with
  | false => rfl
  | true =>
    have hswitch : (if a.enabled then ArrayCall.enable index else .disable index).toGl r.name =
        [if a.enabled then .enableVertexAttribArray index else .disableVertexAttribArray index] := by
      cases a.enabled with
      | true => rfl
      | false => rfl
    rw [if_pos rfl, List.flatMap_cons, hswitch, state]
    cases a.filled with
    | false => rfl
    | true =>
      cases hbuffer : a.glBuffer with
      | none => rfl
      | some b =>
        rw [Rendered.lockBuffer, Option.map_some, htarget b hbuffer]
        rfl

theorem index_of_mem_merged {index : UInt32} {a : VertexAttrib} {c : ArrayCall}
    (hc : c ∈ merged index a) : c.index = index := by
  rw [merged] at hc
  split at hc
  · rcases List.mem_cons.mp hc with rfl | hc
    · split
      · rfl
      · rfl
    · rw [Option.mem_toList, Option.map_eq_some_iff] at hc
      obtain ⟨p, -, rfl⟩ := hc
      rfl
  · cases hc

/-- The calls of a replayed map on an attribute are those of its entry, whatever the order. -/
theorem filter_merged (attributes : AList fun _ : UInt32 => VertexAttrib) (i : UInt32) :
    (attributes.entries.flatMap fun e => merged e.1 e.2).filter (fun c => c.index = i) =
      ((attributes.lookup i).map (merged i)).getD [] := by
  have hfilter := attributes.filter_flatMap_entries merged (fun c => some c.index)
    (fun e _ c hc => congrArg some (index_of_mem_merged hc)) i
  simpa only [Option.some.injEq] using hfilter

/-- A replayed attribute is set to what the entry says. -/
theorem settings_merged {i : UInt32} {a : VertexAttrib} (hdamaged : a.damaged = true) :
    switches (merged i a) i = [a.enabled] ∧ pointers (merged i a) i = (state a).pointer.toList := by
  rw [merged, if_pos hdamaged]
  cases a.enabled with
  | true | false =>
    cases (state a).pointer with
    | none => simp [switches, pointers, List.filterMap_cons, ArrayCall.switch?, ArrayCall.pointer?]
    | some p => simp [switches, pointers, List.filterMap_cons, ArrayCall.switch?, ArrayCall.pointer?]

-- ---------------------------------------------------------------------------
-- The pending side
-- ---------------------------------------------------------------------------

namespace ArrayCall

/-- What the call does to the entry of its attribute. -/
def change (a : VertexAttrib) : ArrayCall → VertexAttrib
  | enable _ => { a with enabled := true, damaged := true }
  | disable _ => { a with enabled := false, damaged := true }
  | pointer _ p => { a with
      size := p.size, type := p.type, normalized := p.normalized, stride := p.stride, offset := p.offset
      glBuffer := some p.buffer, filled := true, damaged := true }

theorem apply_eq (v : GlVertexArray) (c : ArrayCall) :
    c.apply v = v.updateAttribute c.index fun a => c.change a := by
  cases c with
  | enable index => rfl
  | disable index => rfl
  | pointer index p => rfl

theorem state_change (a : VertexAttrib) (c : ArrayCall) : state (c.change a) = c.attrib (state a) := by
  cases c with
  | enable index => rfl
  | disable index => rfl
  | pointer index p => rfl

@[simp] theorem damaged_change (a : VertexAttrib) (c : ArrayCall) : (c.change a).damaged = true := by
  cases c with
  | enable index => rfl
  | disable index => rfl
  | pointer index p => rfl

end ArrayCall

namespace Recorded

/-- The state of the attribute `i`, as the map of attributes has it. -/
def pendingState (p : Recorded) (i : UInt32) : AttribState Nat :=
  ((p.array.attributes.lookup i).map state).getD {}

def Damaged (p : Recorded) (i : UInt32) : Prop :=
  ∃ a, p.array.attributes.lookup i = some a ∧ a.damaged = true

/-- The data of the buffer have been handed over, once a commit at `p` is done. -/
def HandedOver (p : Recorded) (b : Nat) : Prop :=
  b ∈ p.received ∧
    ((p.buffers b).dataDamaged = false ∨ p.array.damaged = true ∧ some b ∈ p.array.buffers)

/-- What is pending at `p`, when `q` was the last commit. -/
structure Follows (p q : Recorded) : Prop where
  attribs : ∀ i, p.pendingState i = effect p.calls i
  grows : q.calls <+: p.calls
  undamaged : ∀ i, ¬ p.Damaged i →
    p.calls.filter (fun c => c.index = i) = q.calls.filter (fun c => c.index = i)
  clean : p.array.damaged = false → p.calls = q.calls ∧ ∀ i, ¬ p.Damaged i
  buffers : ∀ b ∈ p.received, (p.buffers b).dataDamaged = false →
    q.HandedOver b ∧ (p.buffers b).target = (q.buffers b).target

section Follows

variable {p q : Recorded}

theorem pendingState_call (c : ArrayCall) (i : UInt32) :
    pendingState { p with array := c.apply p.array, calls := p.calls ++ [c] } i =
      if c.index = i then c.attrib (p.pendingState i) else p.pendingState i := by
  rw [pendingState, ArrayCall.apply_eq, lookup_updateAttribute]
  split
  · rw [Option.map_some, Option.getD_some, ArrayCall.state_change, pendingState]
    cases p.array.attributes.lookup i with
    | none => rfl
    | some a => rfl
  · rfl

theorem damaged_call (c : ArrayCall) (i : UInt32) :
    Damaged { p with array := c.apply p.array, calls := p.calls ++ [c] } i ↔
      c.index = i ∨ p.Damaged i := by
  rw [Damaged, ArrayCall.apply_eq, lookup_updateAttribute]
  split
  · rename_i hi
    exact iff_of_true ⟨_, rfl, ArrayCall.damaged_change _ c⟩ (.inl hi)
  · rename_i hi
    exact (or_iff_right hi).symm

theorem Follows.call (h : p.Follows q) (c : ArrayCall) :
    Follows { p with array := c.apply p.array, calls := p.calls ++ [c] } q := by
  refine ⟨fun i => ?_, h.grows.trans (List.prefix_append _ _), fun i hi => ?_, ?_, h.buffers⟩
  · rw [pendingState_call, effect_concat, h.attribs]
  · rw [damaged_call, not_or] at hi
    rw [List.filter_append, List.filter_singleton, decide_eq_false hi.1, cond_false, List.append_nil]
    exact h.undamaged i hi.2
  · rw [ArrayCall.apply_eq]
    nofun

theorem Follows.bufferData (h : p.Follows q) (b : Nat) (data : Bytes) (target usage : UInt32) :
    Follows { p with
      buffers := Function.update p.buffers b ((p.buffers b).glBufferData data target usage)
      received := b :: p.received } q := by
  refine ⟨h.attribs, h.grows, h.undamaged, h.clean, fun b' hb' hclean => ?_⟩
  dsimp only at hclean ⊢
  rw [Function.update_apply] at hclean ⊢
  split at hclean
  · cases hclean
  · rename_i hne
    rw [if_neg hne]
    exact h.buffers b' ((List.mem_cons.mp hb').resolve_left hne) hclean

/-- The loop goes over the buffers of the attributes, in whatever order. -/
theorem mem_arrange (order : Order) (v : GlVertexArray) (b : Nat) :
    some b ∈ ((order.arrange v.attributes).entries.map fun e => e.2.glBuffer) ↔ some b ∈ v.buffers :=
  ((order.perm v.attributes).map fun e => e.2.glBuffer).mem_iff

/-- The loop commits each buffer, however often it occurs. -/
theorem commitBuffers_snd (buffers : Nat → GlBuffer) (ps : List WeakPtr) (b : Nat) :
    (commitBuffers buffers ps).2 b = if some b ∈ ps then (buffers b).committed else buffers b := by
  induction ps generalizing buffers with
  | nil => rfl
  | cons first ps ih =>
    cases first with
    | none => simpa [commitBuffers] using ih buffers
    | some b' =>
      rw [commitBuffers, ih, Function.update_apply]
      by_cases hb : b = b'
      · subst hb
        simp [GlBuffer.committed_committed]
      · simp [hb]

theorem committedBuffers_snd (order : Order) (b : Nat) : (p.committedBuffers order).2 b =
    if p.array.damaged = true ∧ some b ∈ p.array.buffers then (p.buffers b).committed
    else p.buffers b := by
  rw [committedBuffers]
  split
  · rename_i hdamaged
    simp only [commitBuffers_snd, mem_arrange, hdamaged, true_and]
  · rename_i hdamaged
    rw [if_neg fun h => hdamaged h.1]

theorem Follows.committed (h : p.Follows q) (order : Order) : (p.committed order).Follows p := by
  refine ⟨fun i => ?_, List.prefix_refl _, fun i _ => rfl, fun _ => ⟨rfl, fun i => ?_⟩,
    fun b hb hclean => ?_⟩
  · have hsame : (p.committed order).pendingState i = p.pendingState i := by
      rw [pendingState, Recorded.committed, lookup_committed, pendingState]
      split
      · rw [Option.map_map]
        rfl
      · rfl
    rw [hsame]
    exact h.attribs i
  · rintro ⟨a, ha, hdamaged⟩
    rw [Recorded.committed, lookup_committed] at ha
    split at ha
    · obtain ⟨a, -, rfl⟩ := Option.map_eq_some_iff.mp ha
      cases hdamaged
    · rename_i hclean
      exact (h.clean (Bool.eq_false_iff.mpr hclean)).2 i ⟨a, ha, hdamaged⟩
  · have hbuffer := p.committedBuffers_snd order b
    dsimp only [Recorded.committed] at hb hclean ⊢
    rw [hbuffer] at hclean ⊢
    split at hclean
    · rename_i hcommitted
      rw [if_pos hcommitted, GlBuffer.target_committed]
      exact ⟨⟨hb, .inr hcommitted⟩, rfl⟩
    · rename_i hkept
      rw [if_neg hkept]
      exact ⟨⟨hb, .inl hclean⟩, rfl⟩

end Follows

end Recorded

-- ---------------------------------------------------------------------------
-- The rendering side
-- ---------------------------------------------------------------------------

/-- `glGenBuffers` and `glGenVertexArrays` do not give the name 0. -/
structure NonzeroNames (gl : Driver) : Prop where
  buffers : ∀ calls, gl.name calls .genBuffers ≠ 0
  arrays : ∀ calls, gl.name calls .genVertexArrays ≠ 0

/-- What the closure of a buffer does, as far as it matters to vertex arrays. -/
theorem execute_bufferData {gl : Driver} (hgl : NonzeroNames gl) (data : Bytes) (target : UInt32)
    (size : Nat) (usage : UInt32) (t : Thread GlBuffer.RenderingState) :
    let t' := (GlBuffer.Command.bufferData data target size usage).execute gl t
    t'.rendering.target = target ∧ t'.rendering.bufferId ≠ 0 ∧
      (t.rendering.bufferId ≠ 0 → t'.rendering.bufferId = t.rendering.bufferId) ∧
      (Context.after accepts t'.calls).arrays = (Context.after accepts t.calls).arrays := by
  have hdata : ∀ calls (name : GLuint), (Context.after accepts (calls ++ [.bindBuffer target name] ++
      [.bufferData target size (data.take size) usage] ++ [.bindBuffer target 0])).arrays =
        (Context.after accepts calls).arrays := by
    intro calls name
    simp only [Context.after_append, Context.issueAll_cons, Context.issueAll_nil,
      Context.arrays_bindBuffer]
    show ((Context.after accepts calls).issue accepts (.bindBuffer target name)).arrays = _
    rw [Context.arrays_bindBuffer]
  dsimp only
  rw [GlBuffer.Command.execute]
  split
  · rename_i hzero
    refine ⟨rfl, hgl.buffers _, fun hne => absurd hzero hne, ?_⟩
    refine (hdata _ _).trans ?_
    rw [Thread.calls_assign, Thread.calls_issue, Context.after_append]
    rfl
  · rename_i hne
    exact ⟨rfl, hne, fun _ => rfl, hdata _ _⟩

/-- The buffers `ps` have been given their data. -/
structure BuffersDone (accepts : Context.Acceptance) (buffers : Nat → GlBuffer) (ps : List WeakPtr)
    (r r' : Rendered) : Prop where
  array : r'.array = r.array
  arrays : (Context.after accepts r'.calls).arrays = (Context.after accepts r.calls).arrays
  names : ∀ b, r.name b ≠ 0 → r'.name b = r.name b
  data : ∀ b, some b ∈ ps → (buffers b).dataDamaged = true →
    r'.name b ≠ 0 ∧ (r'.buffers b).target = (buffers b).target
  others : ∀ b, ¬ (some b ∈ ps ∧ (buffers b).dataDamaged = true) → r'.buffers b = r.buffers b

/-- A rendering state that agrees with the pending state `q` at a commit. -/
structure Agrees (accepts : Context.Acceptance) (r : Rendered) (q : Recorded) : Prop where
  attribs : ∀ i, Issued accepts r.name q.calls i {} (r.attribs accepts i)
  made : q.calls ≠ [] → r.array.vertexArrayId ≠ 0
  unmade : r.array.vertexArrayId = 0 → ∀ array i, (Context.after accepts r.calls).arrays array i = {}
  named : ∀ i x, (effect q.calls i).pointer = some x → r.name x.buffer ≠ 0
  handedOver : ∀ b, q.HandedOver b → r.name b ≠ 0 ∧ (r.buffers b).target = (q.buffers b).target

/-- Whatever the orders in which maps are iterated, the closures lead to a state that
agrees with `p`. -/
def Leads (accepts : Context.Acceptance) (gl : Driver) (p : Recorded) (r : Rendered) :
    List Queued → Prop
  | [] => Agrees accepts r p
  | c :: cs => ∀ order, Leads accepts gl p (r.execute gl order c) cs

variable {gl : Driver} {p q : Recorded}

theorem leads_append {r : Rendered} {cs cs' : List Queued} (hleads : Leads accepts gl q r cs)
    (hnext : ∀ r', Agrees accepts r' q → Leads accepts gl p r' cs') : Leads accepts gl p r (cs ++ cs') := by
  induction cs generalizing r with
  | nil => exact hnext r hleads
  | cons c cs ih => exact fun order => ih (hleads order)

theorem BuffersDone.none {buffers : Nat → GlBuffer} {ps : List WeakPtr} {r r' : Rendered}
    (h : BuffersDone accepts buffers ps r r') : BuffersDone accepts buffers (Option.none :: ps) r r' := by
  refine ⟨h.array, h.arrays, h.names, fun b hb => ?_, fun b hb => ?_⟩
  · exact h.data b (by simpa using hb)
  · exact h.others b (by simpa using hb)

/-- A buffer whose data have not changed is left alone. -/
theorem BuffersDone.clean {buffers : Nat → GlBuffer} {ps : List WeakPtr} {r r' : Rendered} {b : Nat}
    (hclean : (buffers b).dataDamaged = false) (h : BuffersDone accepts buffers ps r r') :
    BuffersDone accepts buffers (some b :: ps) r r' := by
  refine ⟨h.array, h.arrays, h.names, fun b' hb' hdamaged => ?_, fun b' hb' => ?_⟩
  · rcases List.mem_cons.mp hb' with heq | hb'
    · rw [Option.some.inj heq, hclean] at hdamaged
      cases hdamaged
    · exact h.data b' hb' hdamaged
  · exact h.others b' fun hin => hb' ⟨List.mem_cons_of_mem _ hin.1, hin.2⟩

/-- The closure of a buffer runs before those of the others. -/
theorem BuffersDone.upload (hgl : NonzeroNames gl) {order : Order} {buffers : Nat → GlBuffer}
    {ps : List WeakPtr} {r r' : Rendered} {b : Nat} (hdamaged : (buffers b).dataDamaged = true)
    (h : BuffersDone accepts (Function.update buffers b (buffers b).committed) ps
      (r.execute gl order (.buffer b (.bufferData (buffers b).data (buffers b).target (buffers b).size
        (buffers b).usage))) r') : BuffersDone accepts buffers (some b :: ps) r r' := by
  obtain ⟨htarget, hne, hsame, harrays⟩ := execute_bufferData hgl (buffers b).data (buffers b).target
    (buffers b).size (buffers b).usage ⟨r.calls, r.buffers b, []⟩
  have hother : ∀ b', b' ≠ b → ((r.execute gl order (.buffer b (.bufferData (buffers b).data
      (buffers b).target (buffers b).size (buffers b).usage))).buffers b') = r.buffers b' :=
    fun b' hb' => Function.update_of_ne hb' _ _
  -- the buffer is not damaged any more, so the other closures leave it alone
  have hself : r'.buffers b = _ := (h.others b (by simp)).trans (Function.update_self ..)
  refine ⟨h.array, h.arrays.trans harrays, fun b' hb' => ?_, fun b' hin hb' => ?_, fun b' hb' => ?_⟩
  · by_cases heq : b' = b
    · subst heq
      rw [Rendered.name, hself]
      exact hsame hb'
    · have hname : Rendered.name _ b' = r.name b' :=
        congrArg GlBuffer.RenderingState.bufferId (hother b' heq)
      rw [h.names b' (hname ▸ hb'), hname]
  · by_cases heq : b' = b
    · subst heq
      rw [Rendered.name, hself]
      exact ⟨hne, htarget⟩
    · have hin' : some b' ∈ ps := (List.mem_cons.mp hin).resolve_left fun h => heq (Option.some.inj h)
      have hdone := h.data b' hin'
      rw [Function.update_of_ne heq] at hdone
      exact hdone hb'
  · by_cases heq : b' = b
    · exact absurd ⟨heq ▸ List.mem_cons_self, heq ▸ hdamaged⟩ hb'
    · refine (h.others b' ?_).trans (hother b' heq)
      rw [Function.update_of_ne heq]
      exact fun hin => hb' ⟨List.mem_cons_of_mem _ hin.1, hin.2⟩

theorem leads_commitBuffers (hgl : NonzeroNames gl) {buffers : Nat → GlBuffer} {ps : List WeakPtr}
    {r : Rendered} {cs : List Queued} (hnext : ∀ r', BuffersDone accepts buffers ps r r' → Leads accepts gl p r' cs) :
    Leads accepts gl p r ((commitBuffers buffers ps).1 ++ cs) := by
  induction ps generalizing buffers r with
  | nil => exact hnext r ⟨rfl, rfl, fun _ _ => rfl, nofun, fun _ _ => rfl⟩
  | cons first ps ih =>
    cases first with
    | none => exact ih fun r' h => hnext r' h.none
    | some b =>
      rw [commitBuffers, List.append_assoc]
      cases hdamaged : (buffers b).dataDamaged with
      | false =>
        have hsame : Function.update buffers b (buffers b).committed = buffers := by
          rw [GlBuffer.committed, hdamaged]
          exact Function.update_eq_self b buffers
        rw [GlBuffer.commitCommands, hdamaged, hsame]
        exact ih fun r' h => hnext r' (h.clean hdamaged)
      | true =>
        rw [GlBuffer.commitCommands, hdamaged]
        intro order
        exact ih fun r' h => hnext r' (h.upload hgl hdamaged)

/-- The replay of the attributes, in any order. -/
theorem execute_replay (hgl : NonzeroNames gl) {r : Rendered} {v : GlVertexArray}
    (hunmade : r.array.vertexArrayId = 0 →
      ∀ array i, (Context.after accepts r.calls).arrays array i = {})
    (htarget : ∀ b, some b ∈ v.buffers → (r.buffers b).target = glArrayBuffer) (order : Order) :
    let r' := r.execute gl order (.array (.replay v.attributes))
    r'.buffers = r.buffers ∧ r'.array.vertexArrayId ≠ 0 ∧ ∀ i, ∃ calls,
      calls.filter (fun c => c.index = i) = ((v.attributes.lookup i).map (merged i)).getD [] ∧
        Issued accepts r.name calls i (r.attribs accepts i) (r'.attribs accepts i) := by
  have hperm := order.perm v.attributes
  have hlookup : ∀ i, (order.arrange v.attributes).lookup i = v.attributes.lookup i :=
    fun i => List.perm_dlookup i (order.arrange v.attributes).nodupKeys hperm
  have hcalls : ((order.arrange v.attributes).entries.flatMap fun e => attributeCalls r.lockBuffer e.1 e.2) =
      ((order.arrange v.attributes).entries.flatMap fun e => merged e.1 e.2).flatMap
        (ArrayCall.toGl r.name) := by
    rw [List.flatMap_assoc]
    apply List.flatMap_congr
    intro e he
    apply attributeCalls_eq
    intro b hb
    exact htarget b (List.mem_map.mpr ⟨e, hperm.mem_iff.mp he, hb⟩)
  -- what becomes of the array, once it has a name
  have hreplay : ∀ (calls : List GlCall) (array : GLuint), array ≠ 0 →
      (∀ i, (Context.after accepts calls).arrays array i = r.attribs accepts i) →
      ∀ i, ∃ cs, cs.filter (fun c => c.index = i) = ((v.attributes.lookup i).map (merged i)).getD [] ∧
        Issued accepts r.name cs i (r.attribs accepts i)
          ((Context.after accepts (calls ++ [.bindVertexArray array] ++
            ((order.arrange v.attributes).entries.flatMap fun e =>
              attributeCalls r.lockBuffer e.1 e.2) ++ [.bindVertexArray 0])).arrays array i) := by
    intro calls array harray hcontext i
    refine ⟨_, (filter_merged (order.arrange v.attributes) i).trans (by rw [hlookup i]), ?_⟩
    rw [hcalls, Context.after_append, Context.after_append, Context.after_append, ← hcontext i]
    exact (issueAll_calls r.name
      (c := (Context.after accepts calls).issue accepts (.bindVertexArray array)) harray _).2 i
  dsimp only
  rw [Rendered.execute, Command.execute]
  by_cases hzero : r.array.vertexArrayId = 0
  · refine ⟨rfl, ?_, fun i => ?_⟩
    · rw [if_pos hzero]
      exact hgl.arrays _
    · rw [if_pos hzero]
      refine hreplay (r.calls ++ [.genVertexArrays]) (gl.name r.calls .genVertexArrays)
        (hgl.arrays _) (fun i => ?_) i
      rw [Context.after_append]
      exact (hunmade hzero _ i).trans (hunmade hzero _ i).symm
  · refine ⟨rfl, ?_, fun i => ?_⟩
    · rw [if_neg hzero]
      exact hzero
    · rw [if_neg hzero]
      exact hreplay r.calls r.array.vertexArrayId hzero (fun _ => rfl) i

-- ---------------------------------------------------------------------------
-- Commits
-- ---------------------------------------------------------------------------

namespace Recorded

/-- The buffers of the attributes are ready for a commit. -/
def Ready (p : Recorded) : Prop :=
  ∀ w ∈ p.array.buffers, ∀ b ∈ w, b ∈ p.received ∧ (p.buffers b).target = glArrayBuffer

instance (p : Recorded) : Decidable p.Ready :=
  inferInstanceAs (Decidable (∀ w ∈ p.array.buffers, ∀ b ∈ w, _))

/-- What a commit replays of an attribute is nothing, if no call has been made on it since
the last commit, and else what all calls so far make of it. -/
theorem Follows.replayed (h : p.Follows q) (i : UInt32) :
    (((p.array.attributes.lookup i).map (merged i)).getD [] = [] ∧
        p.calls.filter (fun c => c.index = i) = q.calls.filter (fun c => c.index = i)) ∨
      switches (((p.array.attributes.lookup i).map (merged i)).getD []) i =
          [(effect p.calls i).enabled] ∧
        pointers (((p.array.attributes.lookup i).map (merged i)).getD []) i =
          (effect p.calls i).pointer.toList := by
  have hpending := h.attribs i
  have hundamaged := h.undamaged i
  rw [pendingState] at hpending
  rw [Damaged] at hundamaged
  cases hlookup : p.array.attributes.lookup i with
  | none =>
    rw [hlookup] at hundamaged
    exact .inl ⟨rfl, hundamaged nofun⟩
  | some a =>
    rw [hlookup] at hundamaged hpending
    rw [Option.map_some, Option.getD_some] at hpending ⊢
    cases hdamaged : a.damaged with
    | false =>
      refine .inl ⟨by rw [merged, hdamaged]; rfl, hundamaged ?_⟩
      rintro ⟨a', heq, hdamaged'⟩
      rw [← Option.some.inj heq, hdamaged] at hdamaged'
      cases hdamaged'
    | true =>
      obtain ⟨hswitches, hpointers⟩ := settings_merged (i := i) hdamaged
      rw [hswitches, hpointers, ← hpending]
      exact .inr ⟨rfl, rfl⟩

/-- So the replay makes up for all calls since the last commit. -/
theorem Follows.replay (h : p.Follows q) {i : UInt32} {calls : List ArrayCall}
    (hcalls : calls.filter (fun c => c.index = i) = ((p.array.attributes.lookup i).map (merged i)).getD [])
    {name : Nat → GLuint} {old mid new : AttribState GLuint} (hold : old.enabled = false)
    (hq : Issued accepts name q.calls i old mid) (hissued : Issued accepts name calls i mid new) :
    Issued accepts name p.calls i old new := by
  have hswitches : switches q.calls i <+: switches p.calls i := h.grows.filterMap _
  have hpointers : pointers q.calls i <+: pointers p.calls i := h.grows.filterMap _
  have hmid : (∀ on ∈ switches p.calls i, on = false) → mid.enabled = false :=
    fun hall => hq.off hold fun on hon => hall on (hswitches.subset hon)
  have hreplayed := h.replayed i
  rw [← hcalls, switches_filter, pointers_filter] at hreplayed
  rcases hreplayed with ⟨hnil, hsame⟩ | ⟨hreplayed, hpointer⟩
  · have hnone : switches calls i = [] := by rw [← switches_filter, hnil]; rfl
    have hnone' : pointers calls i = [] := by rw [← pointers_filter, hnil]; rfl
    have hswitches' : switches p.calls i = switches q.calls i := by
      rw [← switches_filter, hsame, switches_filter]
    have hpointers' : pointers p.calls i = pointers q.calls i := by
      rw [← pointers_filter, hsame, pointers_filter]
    refine ⟨hq.switch.replay hissued.switch hswitches (.inl ⟨hnone, hswitches'⟩),
      hq.pointer.replay hissued.pointer hpointers (.inl ⟨hnone', hpointers'⟩), fun _ hall => ?_⟩
    exact hissued.off (hmid hall) (by simp [hnone])
  · have hoff : (∀ on ∈ switches p.calls i, on = false) → new.enabled = false := by
      intro hall
      refine hissued.off (hmid hall) fun on hon => ?_
      rw [hreplayed, List.mem_singleton] at hon
      rw [hon, effect]
      cases hlast : (switches p.calls i).getLast? with
      | none => rfl
      | some on' => exact hall on' (List.mem_of_getLast? hlast)
    refine ⟨?_, hq.pointer.replay hissued.pointer hpointers (.inr hpointer), fun _ => hoff⟩
    cases hlast : (switches p.calls i).getLast? with
    | none =>
      have hnil : switches p.calls i = [] := List.getLast?_eq_none_iff.mp hlast
      rw [hnil] at hoff ⊢
      exact ⟨nofun, fun _ => (hoff nofun).trans hold.symm⟩
    | some on =>
      refine hq.switch.replay hissued.switch hswitches (.inr ?_)
      rw [hreplayed, effect, hlast]
      rfl

/-- The buffer of a pointer is one of those of the attributes. -/
theorem Follows.mem_buffers (h : p.Follows q) {i : UInt32} {x : Pointer Nat}
    (hx : (effect p.calls i).pointer = some x) : some x.buffer ∈ p.array.buffers := by
  rw [← h.attribs i, pendingState] at hx
  cases hlookup : p.array.attributes.lookup i with
  | none =>
    rw [hlookup] at hx
    cases hx
  | some a =>
    rw [hlookup, Option.map_some, Option.getD_some, state] at hx
    split at hx
    · obtain ⟨b, hb, rfl⟩ := Option.map_eq_some_iff.mp hx
      exact List.mem_map.mpr ⟨⟨i, a⟩, AList.mem_lookup_iff.mp hlookup, hb⟩
    · cases hx

end Recorded

/-- A buffer that has been handed over has a name and its target, once those that the
commit hands over have been given their data. -/
theorem BuffersDone.handedOver {ps : List WeakPtr} {r r' : Rendered} (hdone : BuffersDone accepts p.buffers ps r r')
    (hps : ∀ b, some b ∈ ps ↔ some b ∈ p.array.buffers) (hagrees : Agrees accepts r q) (hfollows : p.Follows q)
    {b : Nat} (hb : p.HandedOver b) : r'.name b ≠ 0 ∧ (r'.buffers b).target = (p.buffers b).target := by
  by_cases hnow : some b ∈ ps ∧ (p.buffers b).dataDamaged = true
  · exact hdone.data b hnow.1 hnow.2
  · have hclean : (p.buffers b).dataDamaged = false := by
      rcases hb.2 with hclean | ⟨-, hin⟩
      · exact hclean
      · exact Bool.eq_false_iff.mpr fun hdamaged => hnow ⟨(hps b).mpr hin, hdamaged⟩
    obtain ⟨hhanded, htarget⟩ := hfollows.buffers b hb.1 hclean
    rw [Rendered.name, hdone.others b hnow, htarget]
    exact hagrees.handedOver b hhanded

/-- Where no attribute has changed, what agreed with the last commit agrees with the next. -/
theorem Agrees.of_clean {r : Rendered} (hagrees : Agrees accepts r q) (hfollows : p.Follows q)
    (hclean : p.array.damaged = false) : Agrees accepts r p := by
  obtain ⟨hsame, -⟩ := hfollows.clean hclean
  refine ⟨?_, ?_, hagrees.unmade, ?_, fun b hb => ?_⟩
  · rw [hsame]
    exact hagrees.attribs
  · rw [hsame]
    exact hagrees.made
  · rw [hsame]
    exact hagrees.named
  · have hundamaged := hb.2.resolve_right fun h => by simp [hclean] at h
    obtain ⟨hhanded, htarget⟩ := hfollows.buffers b hb.1 hundamaged
    rw [htarget]
    exact hagrees.handedOver b hhanded

theorem leads_commands (hgl : NonzeroNames gl) (order : Order) {r : Rendered}
    (hagrees : Agrees accepts r q) (hfollows : p.Follows q) (hready : p.Ready) :
    Leads accepts gl p r (p.commands order) := by
  rw [Recorded.commands, Recorded.committedBuffers, commitCommands]
  cases hdamaged : p.array.damaged with
  | false => exact hagrees.of_clean hfollows hdamaged
  | true =>
    rw [if_pos rfl, if_pos rfl]
    apply leads_commitBuffers hgl
    intro r' hdone order'
    have hhanded : ∀ b, p.HandedOver b → r'.name b ≠ 0 ∧ (r'.buffers b).target = (p.buffers b).target :=
      fun b hb => hdone.handedOver (Recorded.mem_arrange order p.array) hagrees hfollows hb
    have hready' : ∀ b, some b ∈ p.array.buffers → p.HandedOver b :=
      fun b hb => ⟨(hready _ hb b rfl).1, .inr ⟨hdamaged, hb⟩⟩
    -- the names of the buffers that pointers refer to are those of before
    have hissued : ∀ i, Issued accepts r'.name q.calls i {} (r'.attribs accepts i) := by
      intro i
      obtain ⟨hswitch, hpointer, hoff⟩ := hagrees.attribs i
      rw [Rendered.attribs, hdone.array, hdone.arrays]
      refine ⟨hswitch, hpointer.congr fun x hx => ?_, hoff⟩
      have hnamed := hagrees.named i x hx
      rw [Pointer.named, Pointer.named, hdone.names _ hnamed]
      exact ⟨fun haccepts => ⟨haccepts.1, hnamed⟩, rfl⟩
    obtain ⟨hbuffers, hmade, hattribs⟩ := execute_replay hgl (v := p.array)
      (fun hzero => by
        rw [hdone.array] at hzero
        rw [hdone.arrays]
        exact hagrees.unmade hzero)
      (fun b hb => (hhanded b (hready' b hb)).2.trans (hready _ hb b rfl).2) order'
    have hname : (r'.execute gl order' (.array (.replay p.array.attributes))).name = r'.name := by
      funext b
      rw [Rendered.name, hbuffers, Rendered.name]
    refine ⟨fun i => ?_, fun _ => hmade, fun hzero => absurd hzero hmade, fun i x hx => ?_, fun b hb => ?_⟩
    · obtain ⟨calls, hcalls, hreplay⟩ := hattribs i
      rw [hname]
      exact hfollows.replay hcalls rfl (hissued i) hreplay
    · rw [hname]
      exact (hhanded _ (hready' _ (hfollows.mem_buffers hx))).1
    · rw [hname, hbuffers]
      exact hhanded b hb

/-- The closures that are on the way lead to what the commit is to leave. -/
def tracking (accepts : Context.Acceptance) (gl : Driver) (order : Order) (id : UInt64)
    (buffers : Nat → UInt64) (hgl : NonzeroNames gl) :
    (pipeline gl order id buffers).Tracking (fun _ _ _ => True) fun _ p => p.Ready where
  Leads := fun _ r cs p => Leads accepts gl p r cs
  Tracks := fun _ p q => p.Follows q
  leads_init := ⟨fun _ => .nil, fun h => absurd rfl h, fun _ _ _ => rfl, nofun, nofun⟩
  tracks_init := ⟨fun _ => rfl, List.prefix_refl _, fun _ _ => rfl, fun _ => ⟨rfl, fun _ => nofun⟩, nofun⟩
  leads_update := fun _ _ hleads => hleads
  tracks_update := by
    rintro order order' p p' q o hupdate - hfollows
    cases o with
    | call c =>
      cases hupdate
      exact hfollows.call c
    | bufferData b data target usage =>
      cases hupdate
      exact hfollows.bufferData b data target usage
    | reorder order =>
      cases hupdate
      exact hfollows
  leads_commit := by
    rintro order r cs p q hready hfollows hleads
    exact leads_append hleads fun r' hagrees => leads_commands hgl order hagrees hfollows hready
  tracks_commit := fun _ hfollows => hfollows.committed _
  leads_execute := fun hleads => hleads _
  leads_render := fun {_ _ _ _ x} _ => x.elim

/-- At a commit, the buffers of the attributes are ready. -/
def CommitsReady (s : Pipeline.State Order Recorded Queued Rendered) :
    Pipeline.Label Update Empty → Prop
  | .update _ => True
  | .commit => s.pending.Ready
  | .execute => True
  | .render _ => True

instance (s : Pipeline.State Order Recorded Queued Rendered) (l : Pipeline.Label Update Empty) :
    Decidable (CommitsReady s l) :=
  match l with
  | .update _ => inferInstanceAs (Decidable True)
  | .commit => inferInstanceAs (Decidable s.pending.Ready)
  | .execute => inferInstanceAs (Decidable True)
  | .render _ => inferInstanceAs (Decidable True)

/-- Attributes in the order in which they are listed. -/
def listedOrder : Order := ⟨fun attributes => attributes, fun _ => List.Perm.refl _⟩

theorem nonzeroNames_constantDriver : NonzeroNames constantDriver :=
  have hone : (1 : GLuint) ≠ 0 := by decide
  ⟨fun _ => hone, fun _ => hone⟩

/-- An attribute is given a pointer that GL refuses and then one that it accepts, is disabled
after a commit, and enabled again after another. -/
def enabledAgain : List (Pipeline.Label Update Empty) :=
  [.update (.bufferData 4 [1, 2] glArrayBuffer 0x88E4),
    .update (.call (.pointer 0 ⟨5, 0x1406, false, 8, 0, 4⟩)),
    .update (.call (.pointer 0 ⟨2, 0x1406, false, 8, 0, 4⟩)), .update (.call (.enable 0)), .commit,
    .update (.call (.disable 0)), .update (.call (.enable 1)), .commit, .execute, .execute,
    .update (.call (.enable 0)), .execute]

/-- A pointer that GL accepts is followed by one that it refuses, before the commit. -/
def refusedLast : List (Pipeline.Label Update Empty) :=
  [.update (.bufferData 4 [1, 2] glArrayBuffer 0x88E4),
    .update (.call (.pointer 0 ⟨3, 0x1406, false, 12, 0, 4⟩)),
    .update (.call (.pointer 0 ⟨5, 0x1406, false, 12, 0, 4⟩)), .update (.call (.enable 0)), .commit,
    .execute, .execute]

end ZenRemote.Client.GlVertexArray
