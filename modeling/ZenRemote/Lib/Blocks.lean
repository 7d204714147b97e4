-- SUMMARY: Memory as blocks with owners: what an owner may do with its block, and what that leaves of the others.
import Mathlib.Data.List.Nodup
import Mathlib.Logic.Function.Basic

/-!
# Blocks of memory

Every block that is allocated has one owner, and only the owner may write it, read it,
resize it, free it or hand it on. All else is a fault, as is an access past the end of a
block. The addresses of blocks are not used again, so that a block that is freed twice
is a fault too.
-/

universe u

/-- `freed` are the blocks that have been freed, `next` is the address of the next block. -/
structure Memory (ω β : Type u) where
  blocks : Nat → Option (ω × List β) := fun _ => none
  next : Nat := 0
  freed : List Nat := []
  fresh : ∀ a, next ≤ a → blocks a = none := by exact fun _ _ => rfl
  once : freed.Nodup := by exact List.nodup_nil
  accounted : ∀ a, a ∈ freed ↔ a < next ∧ blocks a = none := by simp

namespace Memory

inductive Fault where
  /-- The block has been freed, or never was there. -/
  | dangling
  /-- The block belongs to another. -/
  | foreign
  | outOfBounds
  deriving DecidableEq, Repr

variable {ω β : Type u}

theorem lt_next_of_isSome {m : Memory ω β} {a : Nat} (ha : (m.blocks a).isSome = true) : a < m.next := by
  by_contra hge
  rw [m.fresh a (Nat.le_of_not_lt hge)] at ha
  cases ha

def alloc (m : Memory ω β) (o : ω) (bytes : List β) : Memory ω β where
  blocks := Function.update m.blocks m.next (some (o, bytes))
  next := m.next + 1
  freed := m.freed
  fresh := fun a ha => by
    rw [Function.update_of_ne (Nat.ne_of_gt ha)]
    exact m.fresh a (Nat.le_of_succ_le ha)
  once := m.once
  accounted := fun a => by
    rw [m.accounted, Function.update_apply]
    split
    · rename_i ha
      simp [ha]
    · rename_i ha
      simp only [and_congr_left_iff]
      omega

def modify (m : Memory ω β) (a : Nat) (f : ω × List β → ω × List β) : Memory ω β where
  blocks := Function.update m.blocks a ((m.blocks a).map f)
  next := m.next
  freed := m.freed
  fresh := fun a' ha' => by
    rw [Function.update_apply]
    split
    · rename_i heq
      rw [← heq, m.fresh a' ha']
      rfl
    · exact m.fresh a' ha'
  once := m.once
  accounted := fun a' => by
    rw [m.accounted, Function.update_apply]
    split
    · rename_i heq
      rw [heq, Option.map_eq_none_iff]
    · rfl

def release (m : Memory ω β) (a : Nat) : Memory ω β where
  blocks := Function.update m.blocks a none
  next := m.next
  freed := if (m.blocks a).isSome then a :: m.freed else m.freed
  fresh := fun a' ha' => by
    rw [Function.update_apply, m.fresh a' ha', ite_self]
  once := by
    split
    · rename_i hlive
      refine List.nodup_cons.mpr ⟨fun hfreed => ?_, m.once⟩
      rw [((m.accounted a).mp hfreed).2] at hlive
      cases hlive
    · exact m.once
  accounted := fun a' => by
    by_cases heq : a' = a
    · subst heq
      rw [Function.update_self]
      split
      · rename_i hlive
        simp [lt_next_of_isSome hlive]
      · rename_i hgone
        rw [m.accounted, Option.not_isSome_iff_eq_none.mp hgone]
    · rw [Function.update_of_ne heq, ← m.accounted]
      split
      · simp [heq]
      · rfl

/-- The bytes of a block when its size changes. -/
def resize (bytes : List β) (size : Nat) (fill : β) : List β :=
  bytes.take size ++ List.replicate (size - bytes.length) fill

/-- The bytes of a block when its first ones are written. -/
def overwrite (bytes data : List β) : List β := data ++ bytes.drop data.length

section

variable [DecidableEq ω]

/-- The contents of a block of `o`. -/
def owned (m : Memory ω β) (o : ω) (a : Nat) : Except Fault (List β) :=
  match m.blocks a with
  | none => .error .dangling
  | some (o', bytes) => if o' = o then .ok bytes else .error .foreign

/-- `realloc` moves the block, unless it can stay where it is. -/
def realloc (m : Memory ω β) (o : ω) (p : Option Nat) (size : Nat) (fill : β) (moves : Bool) :
    Except Fault (Memory ω β × Nat) :=
  match p with
  | none => .ok (m.alloc o (resize [] size fill), m.next)
  | some a => do
    let bytes ← m.owned o a
    if moves then .ok ((m.alloc o (resize bytes size fill)).release a, m.next)
    else .ok (m.modify a fun _ => (o, resize bytes size fill), a)

/-- A null pointer may be written, but no byte. -/
def write (m : Memory ω β) (o : ω) (p : Option Nat) (data : List β) : Except Fault (Memory ω β) :=
  match p with
  | none => if data.length = 0 then .ok m else .error .outOfBounds
  | some a => do
    let bytes ← m.owned o a
    if data.length ≤ bytes.length then .ok (m.modify a fun _ => (o, overwrite bytes data))
    else .error .outOfBounds

def read (m : Memory ω β) (o : ω) (p : Option Nat) (size : Nat) : Except Fault (List β) :=
  match p with
  | none => if size = 0 then .ok [] else .error .outOfBounds
  | some a => do
    let bytes ← m.owned o a
    if size ≤ bytes.length then .ok (bytes.take size) else .error .outOfBounds

def free (m : Memory ω β) (o : ω) (p : Option Nat) : Except Fault (Memory ω β) :=
  match p with
  | none => .ok m
  | some a => do
    let _ ← m.owned o a
    .ok (m.release a)

/-- The block belongs to `o'` from now on. -/
def give (m : Memory ω β) (o o' : ω) (p : Option Nat) : Except Fault (Memory ω β) :=
  match p with
  | none => .ok m
  | some a => do
    let bytes ← m.owned o a
    .ok (m.modify a fun _ => (o', bytes))

end

-- ---------------------------------------------------------------------------
-- What an owner has
-- ---------------------------------------------------------------------------

/-- `p` is the only block of `o`, with its bytes; null, if `o` has none. -/
structure Owns (m : Memory ω β) (o : ω) (p : Option Nat) (bytes : List β) : Prop where
  holds : match p with
    | none => bytes = []
    | some a => m.blocks a = some (o, bytes)
  only : ∀ a bytes', m.blocks a = some (o, bytes') → p = some a

/-- The blocks of the others are the same. -/
def Frame (os : List ω) (m m' : Memory ω β) : Prop :=
  ∀ o ∉ os, ∀ p bytes, m.Owns o p bytes → m'.Owns o p bytes

variable {m : Memory ω β} {o o' : ω} {p : Option Nat} {bytes : List β}

theorem owns_nothing (h : ∀ a bytes, m.blocks a ≠ some (o, bytes)) : m.Owns o none [] :=
  ⟨rfl, fun a bytes ha => absurd ha (h a bytes)⟩

/-- A change of the block `a` of `o` leaves the others what they have. -/
theorem Owns.of_update {m' : Memory ω β} {a : Nat} {x : Option (ω × List β)} (h : m.Owns o p bytes)
    (hblocks : m'.blocks = Function.update m.blocks a x) (hold : ∀ bytes', m.blocks a ≠ some (o, bytes'))
    (hnew : ∀ bytes', x ≠ some (o, bytes')) : m'.Owns o p bytes := by
  refine ⟨?_, fun a' bytes' ha' => ?_⟩
  · cases p with
    | none => exact h.holds
    | some a' =>
      have hne : a' ≠ a := by
        rintro rfl
        exact hold bytes h.holds
      show m'.blocks a' = _
      rw [hblocks, Function.update_of_ne hne]
      exact h.holds
  · rw [hblocks, Function.update_apply] at ha'
    split at ha'
    · exact absurd ha' (hnew bytes')
    · exact h.only a' bytes' ha'

theorem Owns.blocks_eq {a : Nat} (h : m.Owns o (some a) bytes) : m.blocks a = some (o, bytes) := h.holds

theorem Owns.eq_nil (h : m.Owns o none bytes) : bytes = [] := h.holds

theorem Owns.frame_of_update {m' : Memory ω β} {a : Nat} {x : Option (ω × List β)}
    (h : m.Owns o (some a) bytes) (hblocks : m'.blocks = Function.update m.blocks a x)
    (hnew : ∀ y, x = some y → y.1 = o) : Frame [o] m m' := by
  intro o' ho' p' bytes' h'
  rw [List.mem_singleton] at ho'
  apply h'.of_update hblocks
  · intro bytes'' hblock
    rw [h.blocks_eq] at hblock
    cases hblock
    exact ho' rfl
  · intro bytes'' hx
    exact ho' (hnew _ hx)

/-- The owner writes its block anew. -/
theorem Owns.modify {a : Nat} (h : m.Owns o (some a) bytes) (bytes' : List β) :
    (m.modify a fun _ => (o, bytes')).Owns o (some a) bytes' ∧
      Frame [o] m (m.modify a fun _ => (o, bytes')) := by
  have hblocks : (m.modify a fun _ => (o, bytes')).blocks =
      Function.update m.blocks a (some (o, bytes')) := by
    dsimp only [Memory.modify]
    rw [h.blocks_eq]
    rfl
  refine ⟨⟨?_, fun a' bytes'' ha' => ?_⟩, h.frame_of_update hblocks ?_⟩
  · show (m.modify a _).blocks a = _
    rw [hblocks, Function.update_self]
  · rw [hblocks, Function.update_apply] at ha'
    split at ha'
    · rename_i heq
      rw [heq]
    · exact h.only a' bytes'' ha'
  · rintro y ⟨⟩
    rfl

theorem Owns.release {a : Nat} (h : m.Owns o (some a) bytes) :
    (m.release a).Owns o none [] ∧ Frame [o] m (m.release a) := by
  refine ⟨owns_nothing fun a' bytes' ha' => ?_, h.frame_of_update rfl nofun⟩
  dsimp only [Memory.release] at ha'
  rw [Function.update_apply] at ha'
  split at ha'
  · cases ha'
  · rename_i hne
    exact hne (Option.some.inj (h.only a' bytes' ha')).symm

theorem frame_alloc (m : Memory ω β) (o : ω) (bytes : List β) : Frame [o] m (m.alloc o bytes) := by
  intro o' ho' p bytes' h
  rw [List.mem_singleton] at ho'
  apply h.of_update rfl
  · intro bytes'' hblock
    rw [m.fresh _ (Nat.le_refl _)] at hblock
    cases hblock
  · rintro bytes'' ⟨⟩
    exact ho' rfl

theorem Owns.alloc (h : m.Owns o none []) (bytes : List β) :
    (m.alloc o bytes).Owns o (some m.next) bytes := by
  refine ⟨Function.update_self .., fun a bytes' ha => ?_⟩
  dsimp only [Memory.alloc] at ha
  rw [Function.update_apply] at ha
  split at ha
  · rename_i heq
    rw [heq]
  · cases h.only a bytes' ha

/-- The owner of a block gets another one for it. -/
theorem Owns.move {a : Nat} (h : m.Owns o (some a) bytes) (bytes' : List β) :
    ((m.alloc o bytes').release a).Owns o (some m.next) bytes' ∧
      Frame [o] m ((m.alloc o bytes').release a) := by
  have hne : m.next ≠ a := by
    rintro rfl
    have hnone := m.fresh m.next (Nat.le_refl _)
    rw [h.blocks_eq] at hnone
    cases hnone
  have hold : (m.alloc o bytes').blocks a = some (o, bytes) := by
    rw [← h.blocks_eq]
    exact Function.update_of_ne hne.symm _ _
  refine ⟨⟨?_, fun a' bytes'' ha' => ?_⟩, fun o' ho' p' b' h' => ?_⟩
  · show Function.update (m.alloc o bytes').blocks a none m.next = _
    rw [Function.update_of_ne hne]
    exact Function.update_self ..
  · dsimp only [Memory.release] at ha'
    rw [Function.update_apply] at ha'
    split at ha'
    · cases ha'
    · rename_i hne'
      dsimp only [Memory.alloc] at ha'
      rw [Function.update_apply] at ha'
      split at ha'
      · rename_i heq
        rw [heq]
      · exact absurd (Option.some.inj (h.only a' bytes'' ha')).symm hne'
  · apply (frame_alloc m o bytes' o' ho' p' b' h').of_update rfl
    · intro b'' hblock
      rw [hold] at hblock
      cases hblock
      exact ho' List.mem_cons_self
    · nofun

/-- When no one owns a block, each has been freed once. -/
theorem count_freed_eq_one (hnone : ∀ o, m.Owns o none []) {a : Nat} (ha : a < m.next) :
    m.freed.count a = 1 := by
  refine List.count_eq_one_of_mem m.once ((m.accounted a).mpr ⟨ha, ?_⟩)
  cases hblock : m.blocks a with
  | none => rfl
  | some block => cases (hnone block.1).only a block.2 hblock

-- ---------------------------------------------------------------------------
-- The rules of the operations
-- ---------------------------------------------------------------------------

variable [DecidableEq ω]

theorem owned_eq {a : Nat} (h : m.Owns o (some a) bytes) : m.owned o a = .ok bytes := by
  have hblock : m.blocks a = some (o, bytes) := h.holds
  rw [owned, hblock]
  exact if_pos rfl

theorem Owns.free (h : m.Owns o p bytes) :
    ∃ m', m.free o p = .ok m' ∧ m'.Owns o none [] ∧ Frame [o] m m' := by
  cases p with
  | none =>
    obtain rfl := h.eq_nil
    exact ⟨m, rfl, h, fun _ _ _ _ h' => h'⟩
  | some a =>
    refine ⟨m.release a, ?_, h.release⟩
    rw [Memory.free, owned_eq h]
    rfl

theorem Owns.read (h : m.Owns o p bytes) {size : Nat} (hsize : size ≤ bytes.length) :
    m.read o p size = .ok (bytes.take size) := by
  cases p with
  | none =>
    obtain rfl := h.eq_nil
    obtain rfl := Nat.le_zero.mp hsize
    rfl
  | some a =>
    rw [Memory.read, owned_eq h]
    exact if_pos hsize

theorem Owns.write (h : m.Owns o p bytes) {data : List β} (hdata : data.length ≤ bytes.length) :
    ∃ m', m.write o p data = .ok m' ∧ m'.Owns o p (overwrite bytes data) ∧ Frame [o] m m' := by
  cases p with
  | none =>
    obtain rfl := h.eq_nil
    obtain rfl := List.length_eq_zero_iff.mp (Nat.le_zero.mp hdata)
    exact ⟨m, rfl, h, fun _ _ _ _ h' => h'⟩
  | some a =>
    refine ⟨_, ?_, h.modify _⟩
    rw [Memory.write, owned_eq h]
    exact if_pos hdata

theorem Owns.realloc (h : m.Owns o p bytes) (size : Nat) (fill : β) (moves : Bool) :
    ∃ m' a, m.realloc o p size fill moves = .ok (m', a) ∧
      m'.Owns o (some a) (resize bytes size fill) ∧ Frame [o] m m' := by
  cases p with
  | none =>
    obtain rfl := h.eq_nil
    exact ⟨_, _, rfl, h.alloc _, frame_alloc m o _⟩
  | some a =>
    cases moves with
    | true =>
      refine ⟨_, _, ?_, h.move _⟩
      rw [Memory.realloc, owned_eq h]
      rfl
    | false =>
      refine ⟨_, _, ?_, h.modify _⟩
      rw [Memory.realloc, owned_eq h]
      rfl

/-- A block is handed on to one who has none. -/
theorem Owns.give (h : m.Owns o p bytes) (h' : m.Owns o' none []) :
    ∃ m', m.give o o' p = .ok m' ∧ m'.Owns o none [] ∧ m'.Owns o' p bytes ∧ Frame [o, o'] m m' := by
  cases p with
  | none =>
    obtain rfl := h.eq_nil
    exact ⟨m, rfl, h, h', fun _ _ _ _ h'' => h''⟩
  | some a =>
    have hne : o ≠ o' := by
      rintro rfl
      cases h'.only a bytes h.blocks_eq
    have hblocks : (m.modify a fun _ => (o', bytes)).blocks =
        Function.update m.blocks a (some (o', bytes)) := by
      dsimp only [Memory.modify]
      rw [h.blocks_eq]
      rfl
    refine ⟨m.modify a fun _ => (o', bytes), ?_, owns_nothing fun a' bytes' ha' => ?_,
      ⟨?_, fun a' bytes' ha' => ?_⟩, ?_⟩
    · rw [Memory.give, owned_eq h]
      rfl
    · rw [hblocks, Function.update_apply] at ha'
      split at ha'
      · cases ha'
        exact hne rfl
      · rename_i hne'
        exact hne' (Option.some.inj (h.only a' bytes' ha')).symm
    · show (m.modify a _).blocks a = _
      rw [hblocks, Function.update_self]
    · rw [hblocks, Function.update_apply] at ha'
      split at ha'
      · rename_i heq
        rw [heq]
      · cases h'.only a' bytes' ha'
    · intro o'' ho'' p' b' hother
      simp only [List.mem_cons, List.not_mem_nil, or_false, not_or] at ho''
      apply hother.of_update hblocks
      · intro b'' hblock
        rw [h.blocks_eq] at hblock
        cases hblock
        exact ho''.1 rfl
      · rintro b'' ⟨⟩
        exact ho''.2 rfl

end Memory
