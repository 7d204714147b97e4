-- SUMMARY: One emission of a signal, with handlers that disconnect one another, connect others or destroy the signal.
import Mathlib.Data.List.Sort
import ZenRemote.Lib.Machine

/-!
# Signals

`operator()` saves the next node of the list before it calls a handler, so that the handler
may erase its own node. A handler that erases the saved node, its own connection aside,
makes the loop follow it.
-/

namespace ZenRemote.Signal

/-- Where `operator()` is. Handlers are numbered in the order in which they were connected,
and `none` is the end of the list. -/
inductive Pc where
  /-- In the call of the handler at `iter`, with `next` saved. -/
  | calling (iter : Nat) (next : Option Nat)
  | returned
  /-- It has followed a node that is erased. -/
  | followedErased
  deriving DecidableEq, Repr

structure State where
  /-- The handlers of `list_`, in its order. -/
  list : List Nat
  /-- The number of the handler that is connected next. -/
  fresh : Nat
  /-- The signal has not been destroyed. -/
  alive : Bool := true
  pc : Pc := .returned
  called : List Nat := []
  /-- The handlers that were disconnected before their turn. -/
  missed : List Nat := []
  deriving DecidableEq, Repr

/-- What a handler does while it is called, and its return. -/
inductive Label where
  | connect
  | disconnect (handler : Nat)
  /-- The owner of the signal is destroyed. -/
  | destroy
  | ret
  deriving DecidableEq, Repr

/-- `std::next` of a node of the list. -/
def next : List Nat → Nat → Option Nat
  | [], _ => none
  | node :: nodes, iter => if node = iter then nodes.head? else next nodes iter

namespace State

/-- The loop of `operator()` up to the next call. Its test compares addresses only, and its
body follows the node. -/
def resume (s : State) : Option Nat → State
  | none => { s with pc := .returned }
  | some iter =>
    if iter ∈ s.list then
      { s with pc := .calling iter (next s.list iter), called := s.called ++ [iter] }
    else { s with pc := .followedErased }

def connect (s : State) : State := { s with list := s.list ++ [s.fresh], fresh := s.fresh + 1 }

def disconnect (s : State) (handler : Nat) : State :=
  { s with
    list := s.list.erase handler
    missed := if handler ∈ s.called then s.missed else s.missed ++ [handler] }

def destroy (s : State) : State := { s with alive := false, list := [] }

def step (s : State) (l : Label) : Option State :=
  match s.pc with
  | .calling _ next =>
    match l with
    | .connect => if s.alive then some s.connect else none
    | .disconnect handler => if s.alive ∧ handler ∈ s.list then some (s.disconnect handler) else none
    | .destroy => if s.alive then some s.destroy else none
    | .ret => some (s.resume next)
  | .returned | .followedErased => none

/-- The emission with `n` handlers connected, up to the first call. -/
def start (n : Nat) : State :=
  let s : State := { list := List.range n, fresh := n }
  s.resume s.list.head?

end State

def machine (n : Nat) : Machine State Label := ⟨State.start n, State.step⟩

-- ---------------------------------------------------------------------------
-- The property
-- ---------------------------------------------------------------------------

/-- The turn of the handler is over, or is now. -/
def Pc.passed : Pc → Nat → Prop
  | .calling iter _, k => k ≤ iter
  | .returned, _ => True
  | .followedErased, _ => True

instance (pc : Pc) (k : Nat) : Decidable (pc.passed k) :=
  match pc with
  | .calling iter _ => inferInstanceAs (Decidable (k ≤ iter))
  | .returned => isTrue trivial
  | .followedErased => isTrue trivial

/-- No erased node is followed. While the signal exists, of the `n` handlers that were
connected at the start each one whose turn came has been called once, in their order,
unless it was disconnected before. -/
structure Emits (n : Nat) (s : State) : Prop where
  safe : s.pc ≠ .followedErased
  called : s.alive = true →
    s.called.filter (· < n) = (List.range n).filter fun k => s.pc.passed k ∧ k ∉ s.missed

/-- The saved node. -/
def Pc.saved : Pc → Option Nat
  | .calling _ next => next
  | .returned | .followedErased => none

/-- The handler leaves the node alone that the loop has saved. -/
def SparesNext (s : State) : Label → Prop
  | .disconnect handler => s.pc.saved ≠ some handler
  | .destroy => s.pc.saved = none
  | .connect | .ret => True

instance (s : State) (l : Label) : Decidable (SparesNext s l) :=
  match l with
  | .disconnect handler => inferInstanceAs (Decidable (s.pc.saved ≠ some handler))
  | .destroy => inferInstanceAs (Decidable (s.pc.saved = none))
  | .connect | .ret => isTrue trivial

-- ---------------------------------------------------------------------------
-- The list
-- ---------------------------------------------------------------------------

theorem next_eq_some {nodes : List Nat} (h : nodes.Pairwise (· < ·)) {iter m : Nat} (hiter : iter ∈ nodes)
    (hnext : next nodes iter = some m) : m ∈ nodes ∧ iter < m ∧ ∀ k ∈ nodes, iter < k → m ≤ k := by
  induction nodes with
  | nil => cases hnext
  | cons node nodes ih =>
    obtain ⟨hnode, hnodes⟩ := List.pairwise_cons.mp h
    unfold next at hnext
    split at hnext
    · next heq =>
      subst heq
      obtain ⟨rest, rfl⟩ := List.head?_eq_some_iff.mp hnext
      refine ⟨by simp, hnode m List.mem_cons_self, fun k hk hlt => ?_⟩
      rcases List.mem_cons.mp hk with rfl | hk
      · exact absurd hlt (Nat.lt_irrefl k)
      · rcases List.mem_cons.mp hk with rfl | hk
        · exact Nat.le_refl k
        · exact Nat.le_of_lt ((List.pairwise_cons.mp hnodes).1 k hk)
    · next hne =>
      have hiter' : iter ∈ nodes := (List.mem_cons.mp hiter).resolve_left fun heq => hne heq.symm
      obtain ⟨hmem, hlt, hmin⟩ := ih hnodes hiter' hnext
      refine ⟨List.mem_cons_of_mem node hmem, hlt, fun k hk hk' => ?_⟩
      rcases List.mem_cons.mp hk with rfl | hk
      · exact absurd hk' (Nat.lt_asymm (hnode iter hiter'))
      · exact hmin k hk hk'

theorem next_eq_none {nodes : List Nat} (h : nodes.Pairwise (· < ·)) {iter : Nat} (hiter : iter ∈ nodes)
    (hnext : next nodes iter = none) : ∀ k ∈ nodes, k ≤ iter := by
  induction nodes with
  | nil => exact nofun
  | cons node nodes ih =>
    obtain ⟨hnode, hnodes⟩ := List.pairwise_cons.mp h
    unfold next at hnext
    split at hnext
    · next heq =>
      subst heq
      rw [List.head?_eq_none_iff.mp hnext]
      intro k hk
      exact Nat.le_of_eq (List.mem_singleton.mp hk)
    · next hne =>
      have hiter' : iter ∈ nodes := (List.mem_cons.mp hiter).resolve_left fun heq => hne heq.symm
      intro k hk
      rcases List.mem_cons.mp hk with rfl | hk
      · exact Nat.le_of_lt (hnode iter hiter')
      · exact ih hnodes hiter' hnext k hk

-- ---------------------------------------------------------------------------
-- The invariant
-- ---------------------------------------------------------------------------

/-- The turn of the handler is over. -/
def State.Settled (s : State) (k : Nat) : Prop := k ∈ s.called ∨ k ∈ s.missed

/-- `next` is the first node whose handler has not been called. What is connected during
the last call comes after all `n`. -/
structure Saved (n : Nat) (s : State) (next : Option Nat) : Prop where
  mem : ∀ m, next = some m → m ∈ s.list ∧ ∀ k ∈ s.called, k < m
  least : ∀ k ∈ s.list, k ∉ s.called → next.getD n ≤ k

structure Calling (n : Nat) (s : State) (iter : Nat) (next : Option Nat) : Prop where
  called : ∀ k ∈ s.called, k ≤ iter
  settled : s.alive = true → ∀ k < n, k ≤ iter → s.Settled k
  saved : Saved n s next

/-- What the place of the loop says. -/
def At (n : Nat) (s : State) : Pc → Prop
  | .calling iter next => Calling n s iter next
  | .returned => s.alive = true → ∀ k < n, s.Settled k
  | .followedErased => False

/-- Every handler is at one place: it has been called, was disconnected before, or waits. -/
structure Handlers (n : Nat) (s : State) : Prop where
  list : s.list.Pairwise (· < ·)
  fresh : ∀ k ∈ s.list, k < s.fresh
  initial : n ≤ s.fresh
  called : s.called.Pairwise (· < ·)
  missed : ∀ k ∈ s.missed, k ∉ s.called ∧ k ∉ s.list ∧ k < s.fresh
  waits : s.alive = true → ∀ k < n, s.Settled k ∨ k ∈ s.list

structure Sound (n : Nat) (s : State) : Prop extends Handlers n s where
  place : At n s s.pc

variable {n : Nat} {s s' : State}

/-- The handlers before the saved node have had their turn. -/
theorem Saved.settled {next : Option Nat} (h : Saved n s next)
    (hwaits : ∀ k < n, s.Settled k ∨ k ∈ s.list) {k : Nat} (hk : k < n) (hlt : k < next.getD n) :
    s.Settled k := by
  rcases hwaits k hk with hsettled | hlist
  · exact hsettled
  · by_contra hnot
    exact Nat.not_le.mpr hlt (h.least k hlist fun hcalled => hnot (.inl hcalled))

theorem Handlers.saved (h : Handlers n s) {iter : Nat} (hiter : iter ∈ s.list)
    (hlast : ∀ k ∈ s.called, k ≤ iter) (hcalled : ∀ k ∈ s.list, k ∉ s.called → iter < k) :
    Saved n s (next s.list iter) := by
  cases hnext : next s.list iter with
  | none =>
    refine ⟨nofun, fun k hk hnot => ?_⟩
    exact absurd (hcalled k hk hnot) (Nat.not_lt.mpr (next_eq_none h.list hiter hnext k hk))
  | some m =>
    obtain ⟨hmem, hlt, hmin⟩ := next_eq_some h.list hiter hnext
    refine ⟨?_, fun k hk hnot => hmin k hk (hcalled k hk hnot)⟩
    rintro _ ⟨rfl⟩
    exact ⟨hmem, fun k hk => Nat.lt_of_le_of_lt (hlast k hk) hlt⟩

theorem Handlers.call (h : Handlers n s) {m : Nat} (hmem : m ∈ s.list) (hlast : ∀ k ∈ s.called, k < m)
    (pc : Pc) : Handlers n { s with pc := pc, called := s.called ++ [m] } := by
  refine { h with called := ?_, missed := ?_, waits := ?_ }
  · refine List.pairwise_append.mpr ⟨h.called, List.pairwise_singleton _ m, fun k hk m' hm' => ?_⟩
    exact List.mem_singleton.mp hm' ▸ hlast k hk
  · intro k hk
    obtain ⟨hcalled, hlist, hlt⟩ := h.missed k hk
    refine ⟨fun hk' => ?_, hlist, hlt⟩
    rcases List.mem_append.mp hk' with hk' | hk'
    · exact hcalled hk'
    · exact hlist (List.mem_singleton.mp hk' ▸ hmem)
  · intro halive k hk
    exact (h.waits halive k hk).imp_left fun hsettled =>
      hsettled.imp_left fun hk' => List.mem_append_left [m] hk'

theorem Handlers.resume (h : Handlers n s) {next : Option Nat} (hsaved : Saved n s next) :
    Sound n (s.resume next) := by
  cases hnext : next with
  | none =>
    subst hnext
    exact { h with place := fun halive k hk => hsaved.settled (h.waits halive) hk hk }
  | some m =>
    subst hnext
    obtain ⟨hmem, hlast⟩ := hsaved.mem m rfl
    rw [State.resume, if_pos hmem]
    have hcall := h.call hmem hlast (.calling m (Signal.next s.list m))
    have hcalled : ∀ k ∈ s.called ++ [m], k ≤ m := by
      intro k hk
      rcases List.mem_append.mp hk with hk | hk
      · exact Nat.le_of_lt (hlast k hk)
      · exact Nat.le_of_eq (List.mem_singleton.mp hk)
    refine { hcall with place := ⟨hcalled, ?_, hcall.saved hmem hcalled ?_⟩ }
    · intro halive k hk hle
      rcases Nat.lt_or_eq_of_le hle with hlt | rfl
      · exact (hsaved.settled (h.waits halive) hk hlt).imp_left fun hk' => List.mem_append_left [m] hk'
      · exact .inl (List.mem_append_right _ List.mem_cons_self)
    · intro k hk hnot
      have hle : m ≤ k := hsaved.least k hk fun hk' => hnot (List.mem_append_left [m] hk')
      refine Nat.lt_of_le_of_ne hle fun heq => ?_
      exact hnot (List.mem_append_right _ (List.mem_singleton.mpr heq.symm))

theorem sound_start : Sound n (State.start n) := by
  have hstart : Handlers n { list := List.range n, fresh := n } :=
    ⟨List.pairwise_lt_range, fun k hk => List.mem_range.mp hk, Nat.le_refl n, List.Pairwise.nil, nofun,
      fun _ k hk => .inr (List.mem_range.mpr hk)⟩
  refine hstart.resume ⟨fun m hm => ⟨List.mem_of_head? hm, nofun⟩, fun k hk _ => ?_⟩
  cases n with
  | zero => exact Nat.zero_le k
  | succ n =>
    show (List.range (n + 1)).head?.getD (n + 1) ≤ k
    rw [List.range_succ_eq_map]
    exact Nat.zero_le k

-- ---------------------------------------------------------------------------
-- Steps
-- ---------------------------------------------------------------------------

theorem Handlers.connect (h : Handlers n s) : Handlers n s.connect := by
  refine { h with list := ?_, fresh := ?_, initial := ?_, missed := ?_, waits := ?_ }
  · refine List.pairwise_append.mpr ⟨h.list, List.pairwise_singleton _ _, fun k hk m hm => ?_⟩
    exact List.mem_singleton.mp hm ▸ h.fresh k hk
  · intro k hk
    rcases List.mem_append.mp hk with hk | hk
    · exact Nat.lt_succ_of_lt (h.fresh k hk)
    · exact Nat.lt_succ_of_le (Nat.le_of_eq (List.mem_singleton.mp hk))
  · exact Nat.le_succ_of_le h.initial
  · intro k hk
    obtain ⟨hcalled, hlist, hlt⟩ := h.missed k hk
    refine ⟨hcalled, fun hk' => ?_, Nat.lt_succ_of_lt hlt⟩
    rcases List.mem_append.mp hk' with hk' | hk'
    · exact hlist hk'
    · exact absurd (List.mem_singleton.mp hk') (Nat.ne_of_lt hlt)
  · intro halive k hk
    exact (h.waits halive k hk).imp_right fun hk' => List.mem_append_left _ hk'

theorem Saved.connect {next : Option Nat} (h : Saved n s next) (hhandlers : Handlers n s) :
    Saved n s.connect next := by
  refine ⟨fun m hm => ⟨List.mem_append_left _ (h.mem m hm).1, (h.mem m hm).2⟩, fun k hk hnot => ?_⟩
  rcases List.mem_append.mp hk with hk | hk
  · exact h.least k hk hnot
  · rw [List.mem_singleton.mp hk]
    cases hnext : next with
    | none => exact hhandlers.initial
    | some m => exact Nat.le_of_lt (hhandlers.fresh m (h.mem m hnext).1)

theorem State.Settled.disconnect {k : Nat} (h : s.Settled k) (handler : Nat) :
    (s.disconnect handler).Settled k := by
  refine h.imp_right fun hk => ?_
  simp only [State.disconnect]
  split
  · exact hk
  · exact List.mem_append_left _ hk

theorem settled_disconnect (handler : Nat) : (s.disconnect handler).Settled handler := by
  by_cases hcalled : handler ∈ s.called
  · exact .inl hcalled
  · refine .inr ?_
    simp only [State.disconnect, if_neg hcalled]
    exact List.mem_append_right _ List.mem_cons_self

theorem Handlers.disconnect (h : Handlers n s) {handler : Nat} (hmem : handler ∈ s.list) :
    Handlers n (s.disconnect handler) := by
  have hnodup : s.list.Nodup := h.list.imp Nat.ne_of_lt
  refine { h with list := ?_, fresh := ?_, missed := ?_, waits := ?_ }
  · exact h.list.sublist List.erase_sublist
  · exact fun k hk => h.fresh k (List.mem_of_mem_erase hk)
  · intro k hk
    have hcases : k ∈ s.missed ∨ k = handler ∧ handler ∉ s.called := by
      simp only [State.disconnect] at hk
      split at hk
      · exact .inl hk
      · next hcalled => exact (List.mem_append.mp hk).imp_right fun hk => ⟨List.mem_singleton.mp hk, hcalled⟩
    obtain hk | ⟨rfl, hcalled⟩ := hcases
    · obtain ⟨hcalled, hlist, hlt⟩ := h.missed k hk
      exact ⟨hcalled, fun hk' => hlist (List.mem_of_mem_erase hk'), hlt⟩
    · exact ⟨hcalled, hnodup.not_mem_erase, h.fresh k hmem⟩
  · intro halive k hk
    by_cases heq : k = handler
    · rw [heq]
      exact .inl (settled_disconnect handler)
    · rcases h.waits halive k hk with hsettled | hlist
      · exact .inl (hsettled.disconnect handler)
      · exact .inr ((List.mem_erase_of_ne heq).mpr hlist)

theorem Saved.disconnect {next : Option Nat} (h : Saved n s next) {handler : Nat}
    (hspares : next ≠ some handler) : Saved n (s.disconnect handler) next := by
  refine ⟨fun m hm => ⟨?_, (h.mem m hm).2⟩, fun k hk => h.least k (List.mem_of_mem_erase hk)⟩
  have hne : m ≠ handler := by
    rintro rfl
    exact hspares hm
  exact (List.mem_erase_of_ne hne).mpr (h.mem m hm).1

theorem Handlers.destroy (h : Handlers n s) : Handlers n s.destroy :=
  { h with
    list := List.Pairwise.nil
    fresh := nofun
    missed := fun k hk => ⟨(h.missed k hk).1, nofun, (h.missed k hk).2.2⟩
    waits := nofun }

/-- The states that a step can lead to from a call with `next` saved. -/
inductive Stepped (s : State) (next : Option Nat) : Label → State → Prop
  | connect (halive : s.alive = true) : Stepped s next .connect s.connect
  | disconnect (handler : Nat) (halive : s.alive = true) (hmem : handler ∈ s.list) :
      Stepped s next (.disconnect handler) (s.disconnect handler)
  | destroy (halive : s.alive = true) : Stepped s next .destroy s.destroy
  | ret : Stepped s next .ret (s.resume next)

/-- A step is taken in a call. -/
theorem step_cases {l : Label} (hstep : s.step l = some s') :
    ∃ iter next, s.pc = .calling iter next ∧ Stepped s next l s' := by
  unfold State.step at hstep
  split at hstep
  · next iter next hpc =>
    refine ⟨iter, next, hpc, ?_⟩
    cases l with
    | connect =>
      obtain ⟨halive, hs'⟩ := Option.ite_none_right_eq_some.mp hstep
      exact Option.some.inj hs' ▸ .connect halive
    | disconnect handler =>
      obtain ⟨⟨halive, hmem⟩, hs'⟩ := Option.ite_none_right_eq_some.mp hstep
      exact Option.some.inj hs' ▸ .disconnect handler halive hmem
    | destroy =>
      obtain ⟨halive, hs'⟩ := Option.ite_none_right_eq_some.mp hstep
      exact Option.some.inj hs' ▸ .destroy halive
    | ret => exact Option.some.inj hstep ▸ .ret
  · cases hstep
  · cases hstep

/-- The saved node is erased. -/
def Doomed (s : State) : Prop := ∃ iter m, s.pc = .calling iter (some m) ∧ m ∉ s.list ∧ m < s.fresh

theorem Sound.place_of_pc (h : Sound n s) {pc : Pc} (hpc : s.pc = pc) : At n s pc := hpc ▸ h.place

theorem Sound.saved (h : Sound n s) {iter : Nat} {next : Option Nat} (hpc : s.pc = .calling iter next) :
    Calling n s iter next :=
  h.place_of_pc hpc

theorem Sound.not_doomed (h : Sound n s) : ¬ Doomed s := by
  rintro ⟨iter, m, hpc, hmem, -⟩
  exact hmem ((h.saved hpc).saved.mem m rfl).1

theorem Sound.step (h : Sound n s) {l : Label} (hspares : SparesNext s l) (hstep : s.step l = some s') :
    Sound n s' := by
  obtain ⟨iter, next, hpc, hl⟩ := step_cases hstep
  obtain ⟨hcalled, hsettled, hsaved⟩ := h.saved hpc
  cases hl with
  | connect halive =>
    refine { h.toHandlers.connect with place := ?_ }
    show At n s.connect s.pc
    rw [hpc]
    exact ⟨hcalled, hsettled, hsaved.connect h.toHandlers⟩
  | disconnect handler halive hmem =>
    refine { h.toHandlers.disconnect hmem with place := ?_ }
    have hne : next ≠ some handler := by
      rw [SparesNext, hpc] at hspares
      exact hspares
    show At n (s.disconnect handler) s.pc
    rw [hpc]
    exact ⟨hcalled, fun halive k hk hle => (hsettled halive k hk hle).disconnect handler,
      hsaved.disconnect hne⟩
  | destroy halive =>
    refine { h.toHandlers.destroy with place := ?_ }
    have hnext : next = none := by
      rw [SparesNext, hpc] at hspares
      exact hspares
    show At n s.destroy s.pc
    rw [hpc, hnext]
    exact ⟨hcalled, nofun, nofun, nofun⟩
  | ret => exact h.toHandlers.resume hsaved

/-- The step that erases the saved node. -/
theorem Sound.doomed_step (h : Sound n s) {l : Label} (hspares : ¬ SparesNext s l)
    (hstep : s.step l = some s') : Doomed s' := by
  obtain ⟨iter, next, hpc, hl⟩ := step_cases hstep
  cases hl with
  | connect halive => exact absurd trivial hspares
  | disconnect handler halive hmem =>
    rw [SparesNext, hpc, not_ne_iff] at hspares
    have hnodup : s.list.Nodup := h.list.imp Nat.ne_of_lt
    refine ⟨iter, handler, ?_, hnodup.not_mem_erase, h.fresh handler hmem⟩
    exact hpc.trans (congrArg (Pc.calling iter) hspares)
  | destroy halive =>
    rw [SparesNext, hpc] at hspares
    obtain ⟨m, hnext⟩ := Option.ne_none_iff_exists'.mp hspares
    refine ⟨iter, m, hpc.trans (congrArg (Pc.calling iter) hnext), nofun, ?_⟩
    exact h.fresh m ((h.saved hpc).saved.mem m hnext).1
  | ret => exact absurd trivial hspares

/-- The saved node is erased, or has been followed then. -/
def Lost (s : State) : Prop := Doomed s ∨ s.pc = .followedErased

/-- An erased node does not come back, and is followed when the handler returns. -/
theorem Lost.step (h : Lost s) {l : Label} (hstep : s.step l = some s') : Lost s' := by
  obtain ⟨iter, next, hpc, hl⟩ := step_cases hstep
  obtain ⟨iter', m, hpc', hmem, hlt⟩ | hpc' := h
  · cases hpc.symm.trans hpc'
    cases hl with
    | connect halive =>
      refine .inl ⟨iter, m, hpc, fun hk => ?_, Nat.lt_succ_of_lt hlt⟩
      rcases List.mem_append.mp hk with hk | hk
      · exact hmem hk
      · exact Nat.ne_of_lt hlt (List.mem_singleton.mp hk)
    | disconnect handler halive hmem' =>
      exact .inl ⟨iter, m, hpc, fun hk => hmem (List.mem_of_mem_erase hk), hlt⟩
    | destroy halive => exact .inl ⟨iter, m, hpc, nofun, hlt⟩
    | ret =>
      refine .inr ?_
      rw [State.resume, if_neg hmem]
  · cases hpc.symm.trans hpc'

-- ---------------------------------------------------------------------------
-- Runs
-- ---------------------------------------------------------------------------

theorem Sound.emits (h : Sound n s) : Emits n s := by
  have hpassed : s.alive = true → ∀ k < n, s.pc.passed k → s.Settled k := by
    intro halive k hk hpassed
    cases hpc : s.pc with
    | calling iter next =>
      rw [hpc] at hpassed
      exact (h.saved hpc).settled halive k hk hpassed
    | returned => exact h.place_of_pc hpc halive k hk
    | followedErased => exact (h.place_of_pc hpc).elim
  have hcalled : ∀ k ∈ s.called, s.pc.passed k := by
    intro k hk
    cases hpc : s.pc with
    | calling iter next => exact (h.saved hpc).called k hk
    | returned => trivial
    | followedErased => trivial
  refine ⟨fun hpc => h.place_of_pc hpc, fun halive => ?_⟩
  · refine (h.called.filter _).eq_of_mem_iff (List.pairwise_lt_range.filter _) fun k => ?_
    rw [List.mem_filter, List.mem_filter, List.mem_range, decide_eq_true_eq, decide_eq_true_eq]
    constructor
    · rintro ⟨hk, hlt⟩
      exact ⟨hlt, hcalled k hk, fun hmissed => (h.missed k hmissed).1 hk⟩
    · rintro ⟨hlt, hk, hmissed⟩
      exact ⟨(hpassed halive k hlt hk).resolve_right hmissed, hlt⟩

theorem always_sound_iff {ls : List Label} (hrun : (machine n).run ls = some s) :
    (machine n).Always (Sound n) ls ↔ (machine n).Along SparesNext ls := by
  apply Machine.always_iff_along (J := fun _ => True) trivial sound_start (fun _ _ _ _ _ _ _ => trivial)
    ?_ hrun
  intro s l s' _ h hstep
  refine ⟨fun h' => ?_, fun hspares => h.step hspares hstep⟩
  by_contra hspares
  exact h'.not_doomed (h.doomed_step hspares hstep)

theorem sound_or_lost {ls : List Label} (hrun : (machine n).run ls = some s) : Sound n s ∨ Lost s := by
  apply Machine.run_invariant (I := fun s => Sound n s ∨ Lost s) (.inl sound_start) ?_ hrun
  rintro s l s' (h | h) hstep
  · by_cases hspares : SparesNext s l
    · exact .inl (h.step hspares hstep)
    · exact .inr (.inl (h.doomed_step hspares hstep))
  · exact .inr (h.step hstep)

/-- As long as every handler spares the saved node, the emission is as it should be. An
emission that is over has been so only if every handler did. -/
theorem emits_run {ls : List Label} (hrun : (machine n).run ls = some s) :
    ((machine n).Along SparesNext ls → (machine n).Always (Emits n) ls) ∧
      ((∀ iter next, s.pc ≠ .calling iter next) →
        (machine n).Always (Emits n) ls → (machine n).Along SparesNext ls) := by
  rw [← always_sound_iff hrun]
  refine ⟨fun h before t hbefore ht => (h before t hbefore ht).emits, fun hover hemits => ?_⟩
  rintro before t ⟨after, rfl⟩ ht
  refine (sound_or_lost ht).resolve_right fun hlost => ?_
  have hafter : (machine n).runFrom t after = some s := by
    rw [← hrun, Machine.run_append, Machine.run, ht, Option.bind_some]
  have hlost' : Lost s := Machine.runFrom_invariant (fun _ _ _ h hstep => h.step hstep) hlost hafter
  obtain ⟨iter, m, hpc, -⟩ | hpc := hlost'
  · exact hover iter (some m) hpc
  · exact (hemits _ s List.prefix_rfl hrun).safe hpc

/-- The first of three handlers disconnects the last one and connects another, and the
second one disconnects itself. -/
def disconnectLater : List Label := [.disconnect 2, .connect, .ret, .disconnect 1, .ret, .ret]

theorem emits_run_disconnectLater : ∃ s, (machine 3).run disconnectLater = some s ∧
    s.called = [0, 1, 3] ∧ (machine 3).Always (Emits 3) disconnectLater := by
  obtain ⟨s, hs, hcalled⟩ : ∃ s, (machine 3).run disconnectLater = some s ∧ s.called = [0, 1, 3] :=
    ⟨_, rfl, rfl⟩
  exact ⟨s, hs, hcalled, (emits_run hs).1 (by decide)⟩

/-- The first of two handlers disconnects the second one, or destroys the signal. -/
theorem not_emits_disconnectNext :
    (∃ s, (machine 2).run [.disconnect 1, .ret] = some s ∧ ¬ Emits 2 s) ∧
      ∃ s, (machine 2).run [.destroy, .ret] = some s ∧ ¬ Emits 2 s :=
  ⟨⟨_, rfl, fun h => h.safe rfl⟩, ⟨_, rfl, fun h => h.safe rfl⟩⟩

end ZenRemote.Signal
