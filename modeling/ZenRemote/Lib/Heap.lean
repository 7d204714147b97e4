-- SUMMARY: Heaps of shared objects of several kinds, addresses that are never used again, and weak pointers.
import Mathlib.Data.Option.Defs
import Mathlib.Logic.Function.Basic

/-!
# Heaps of shared objects

A heap maps addresses to the objects that are alive, each with its kind; `β k` is
the type of the objects of kind `k`. The address of an object stands for its
control block: it is not used again after the object has gone, so a weak pointer
never finds another object than the one it was made from.
-/

universe u v

/-- `next` is the address of the next object. -/
structure Heap {κ : Type u} (β : κ → Type v) where
  objects : Nat → Option (Sigma β) := fun _ => none
  next : Nat := 0
  fresh : ∀ a, next ≤ a → objects a = none := by exact fun _ _ => rfl

abbrev WeakPtr := Option Nat

namespace Heap

variable {κ : Type u} {β : κ → Type v}

def alloc (h : Heap β) (k : κ) (x : β k) : Heap β where
  objects := Function.update h.objects h.next (some ⟨k, x⟩)
  next := h.next + 1
  fresh := fun a ha => by
    rw [Function.update_of_ne (Nat.ne_of_gt ha)]
    exact h.fresh a (Nat.le_of_succ_le ha)

def free (h : Heap β) (a : Nat) : Heap β where
  objects := Function.update h.objects a none
  next := h.next
  fresh := fun b hb => by
    rw [Function.update_apply, h.fresh b hb, ite_self]

variable [DecidableEq κ]

def get (h : Heap β) (k : κ) (a : Nat) : Option (β k) :=
  match h.objects a with
  | some ⟨k', x⟩ => if hk : k' = k then some (hk ▸ x) else none
  | none => none

/-- `std::weak_ptr::lock`. -/
def lock (h : Heap β) (k : κ) (p : WeakPtr) : Option (β k) := p.bind (h.get k)

variable {h h' h'' : Heap β} {k k' : κ} {a b : Nat}

theorem get_eq_some {x : β k} : h.get k a = some x ↔ h.objects a = some ⟨k, x⟩ := by
  unfold get
  split
  · rename_i k' y hy
    rw [hy, Option.some.injEq, Sigma.mk.injEq]
    split
    · rename_i hk
      subst hk
      simp
    · rename_i hk
      simp [hk]
  · rename_i hnone
    simp [hnone]

theorem get_eq_none_of_objects (ha : h.objects a = none) : h.get k a = none := by
  rw [get, ha]

theorem get_congr (ha : h.objects a = h'.objects a) : h.get k a = h'.get k a := by
  rw [get, get, ha]

theorem lock_eq_some {p : WeakPtr} {x : β k} :
    h.lock k p = some x ↔ ∃ a, p = some a ∧ h.get k a = some x :=
  Option.bind_eq_some_iff

theorem lt_next_of_get {x : β k} (hx : h.get k a = some x) : a < h.next := by
  by_contra hle
  have hnone := h.fresh a (Nat.le_of_not_lt hle)
  rw [get_eq_some, hnone] at hx
  cases hx

theorem get_alloc_self (x : β k) : (h.alloc k x).get k h.next = some x := by
  rw [get_eq_some]
  exact Function.update_self ..

theorem get_alloc_of_ne (x : β k) (ha : a ≠ h.next) : (h.alloc k x).get k' a = h.get k' a := by
  have hobjects : (h.alloc k x).objects a = h.objects a := Function.update_of_ne ha ..
  rw [get, get, hobjects]

/-- The object at an address is of one kind. -/
theorem kind_eq_of_get {x : β k} {y : β k'} (hx : h.get k a = some x) (hy : h.get k' a = some y) :
    k = k' := by
  rw [get_eq_some] at hx hy
  rw [hx, Option.some.injEq] at hy
  exact congrArg Sigma.fst hy

/-- A change of an object that is alive. -/
def modify (h : Heap β) (k : κ) (f : β k → β k) (a : Nat) : Heap β :=
  match hx : h.get k a with
  | some x =>
    { objects := Function.update h.objects a (some ⟨k, f x⟩)
      next := h.next
      fresh := fun b hb => by
        have hne : b ≠ a := fun heq => Nat.not_lt.mpr hb (heq ▸ lt_next_of_get hx)
        rw [Function.update_of_ne hne]
        exact h.fresh b hb }
  | none => h

theorem objects_modify (f : β k → β k) (x : β k) (hx : h.get k a = some x) :
    (h.modify k f a).objects = Function.update h.objects a (some ⟨k, f x⟩) := by
  unfold modify
  split
  · rename_i y hy
    rw [hx, Option.some.injEq] at hy
    rw [hy]
  · rename_i hnone
    rw [hx] at hnone
    cases hnone

theorem modify_of_get_eq_none (f : β k → β k) (hx : h.get k a = none) : h.modify k f a = h := by
  unfold modify
  split
  · rename_i y hy
    rw [hx] at hy
    cases hy
  · rfl

@[simp] theorem next_modify (f : β k → β k) : (h.modify k f a).next = h.next := by
  unfold modify
  split
  · rfl
  · rfl

theorem get_modify_self (f : β k → β k) : (h.modify k f a).get k a = (h.get k a).map f := by
  cases hx : h.get k a with
  | none =>
    rw [modify_of_get_eq_none f hx]
    exact hx
  | some x =>
    rw [Option.map_some, get_eq_some, objects_modify f x hx, Function.update_self]

theorem objects_modify_of_ne (f : β k → β k) (hb : b ≠ a) :
    (h.modify k f a).objects b = h.objects b := by
  cases hx : h.get k a with
  | none => rw [modify_of_get_eq_none f hx]
  | some x => rw [objects_modify f x hx, Function.update_of_ne hb]

theorem get_modify_of_ne (f : β k → β k) (hb : b ≠ a) :
    (h.modify k f a).get k' b = h.get k' b := by
  rw [get, get, objects_modify_of_ne f hb]

theorem get_modify_of_ne_kind (f : β k → β k) (hk : k ≠ k') :
    (h.modify k f a).get k' b = h.get k' b := by
  cases hx : h.get k a with
  | none => rw [modify_of_get_eq_none f hx]
  | some x =>
    cases Decidable.em (b = a) with
    | inl heq =>
      rw [heq, get, get, objects_modify f x hx, Function.update_self, get_eq_some.mp hx]
      simp [hk]
    | inr hne => exact get_modify_of_ne f hne

-- ---------------------------------------------------------------------------
-- Related heaps
-- ---------------------------------------------------------------------------

/-- The same objects are alive, each related to what it was. -/
structure Related (r : ∀ k, β k → β k → Prop) (h h' : Heap β) : Prop where
  next_eq : h'.next = h.next
  get : ∀ k a, Option.Rel (r k) (h.get k a) (h'.get k a)

variable {r : ∀ k, β k → β k → Prop}

theorem Related.refl (hr : ∀ k x, r k x x) (h : Heap β) : Related r h h := by
  refine ⟨rfl, fun k a => ?_⟩
  cases h.get k a with
  | none => exact .none
  | some x => exact .some (hr k x)

theorem Related.trans (hr : ∀ k x y z, r k x y → r k y z → r k x z) (hh' : Related r h h')
    (hh'' : Related r h' h'') : Related r h h'' := by
  refine ⟨hh''.next_eq.trans hh'.next_eq, fun k a => ?_⟩
  have hfst := hh'.get k a
  have hsnd := hh''.get k a
  generalize h.get k a = x, h'.get k a = y, h''.get k a = z at hfst hsnd
  cases hfst with
  | none => exact hsnd
  | some hxy =>
    cases hsnd with
    | some hyz => exact .some (hr k _ _ _ hxy hyz)

theorem related_modify (hr : ∀ k x, r k x x) (f : β k → β k)
    (hf : ∀ x, h.get k a = some x → r k x (f x)) : Related r h (h.modify k f a) := by
  refine ⟨next_modify f, fun k' b => ?_⟩
  have hsame : ∀ y, Option.Rel (r k') y y := by
    intro y
    cases y with
    | none => exact .none
    | some y => exact .some (hr k' y)
  cases Decidable.em (k = k') with
  | inr hk =>
    rw [get_modify_of_ne_kind f hk]
    exact hsame _
  | inl hk =>
    subst hk
    cases Decidable.em (b = a) with
    | inr hb =>
      rw [get_modify_of_ne f hb]
      exact hsame _
    | inl hb =>
      rw [hb, get_modify_self]
      cases hx : h.get k a with
      | none => exact .none
      | some x => exact .some (hf x hx)

theorem Related.exists_get {x : β k} (hh' : Related r h h') (hx : h.get k a = some x) :
    ∃ y, h'.get k a = some y ∧ r k x y := by
  have hrel := hh'.get k a
  rw [hx] at hrel
  generalize h'.get k a = z at hrel
  cases hrel with
  | some hxy => exact ⟨_, rfl, hxy⟩

theorem Related.exists_get_of {y : β k} (hh' : Related r h h') (hy : h'.get k a = some y) :
    ∃ x, h.get k a = some x ∧ r k x y := by
  have hrel := hh'.get k a
  rw [hy] at hrel
  generalize h.get k a = z at hrel
  cases hrel with
  | some hxy => exact ⟨_, rfl, hxy⟩

-- ---------------------------------------------------------------------------
-- Later heaps
-- ---------------------------------------------------------------------------

/-- What can become of a heap: the objects that have gone do not come back. -/
structure Later (h h' : Heap β) : Prop where
  next_le : h.next ≤ h'.next
  gone : ∀ k, ∀ a < h.next, h.get k a = none → h'.get k a = none

@[refl] theorem Later.refl (h : Heap β) : h.Later h := ⟨Nat.le_refl _, fun _ _ _ ha => ha⟩

theorem Later.trans (hh' : h.Later h') (hh'' : h'.Later h'') : h.Later h'' :=
  ⟨Nat.le_trans hh'.next_le hh''.next_le, fun k a ha hgone =>
    hh''.gone k a (Nat.lt_of_lt_of_le ha hh'.next_le) (hh'.gone k a ha hgone)⟩

theorem later_alloc (x : β k) : h.Later (h.alloc k x) :=
  ⟨Nat.le_succ _, fun _ _ ha hgone => (get_alloc_of_ne x (Nat.ne_of_lt ha)).trans hgone⟩

theorem later_free : h.Later (h.free a) := by
  refine ⟨Nat.le_refl _, fun k b _ hgone => ?_⟩
  cases Decidable.em (b = a) with
  | inl heq =>
    apply get_eq_none_of_objects
    show Function.update h.objects a none b = none
    rw [heq, Function.update_self]
  | inr hne =>
    have hsame : h.objects b = (h.free a).objects b := (Function.update_of_ne hne ..).symm
    exact (get_congr hsame).symm.trans hgone

theorem Related.later (hh' : Related r h h') : h.Later h' := by
  refine ⟨Nat.le_of_eq hh'.next_eq.symm, fun k a _ hgone => ?_⟩
  have hrel := hh'.get k a
  rw [hgone] at hrel
  generalize h'.get k a = y at hrel
  cases hrel with
  | none => rfl

theorem later_modify (f : β k → β k) : h.Later (h.modify k f a) :=
  (related_modify (r := fun _ _ _ => True) (fun _ _ => trivial) f fun _ _ => trivial).later

end Heap
