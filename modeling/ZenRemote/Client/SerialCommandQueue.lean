-- SUMMARY: The client's hold-back queue, which executes commands in serial order, and what repeated serials do to it.
import Mathlib.Data.List.DropRight
import Mathlib.Data.List.Nodup
import Mathlib.Data.List.Perm.Basic
import Mathlib.Order.Bounds.Basic

/-!
# The serial command queue

A command arrives with a serial. The queue executes commands in the order of
their serials, from serial 0 on, and holds a command back until all its
predecessors have been executed. Executing a command is an effect, so every
operation returns, next to the new queue, the entries whose commands it
executes, in the order of execution.
-/

namespace ZenRemote.Client

open scoped List

universe u

/-- `list_` holds the commands that wait for a predecessor. -/
structure SerialCommandQueue (α : Type u) where
  nextSerial : Nat := 0
  list : List (Nat × α) := []
  deriving DecidableEq, Repr

namespace SerialCommandQueue

variable {α : Type u}

def isEmpty (q : SerialCommandQueue α) : Bool := q.list.isEmpty

/-- The loop of `Consume`, over the awaited serial and the rest of `list_`. It
stops at the first entry that is not the awaited one. -/
def consumeFrom (next : Nat) : List (Nat × α) → SerialCommandQueue α × List (Nat × α)
  | [] => (⟨next, []⟩, [])
  | (serial, command) :: rest =>
    if serial ≠ next then (⟨next, (serial, command) :: rest⟩, [])
    else
      let (q, executed) := consumeFrom (next + 1) rest
      (q, (serial, command) :: executed)

def consume (q : SerialCommandQueue α) : SerialCommandQueue α × List (Nat × α) :=
  consumeFrom q.nextSerial q.list

/-- `Insert` scans `list_` from the back over the entries with a larger serial,
so an entry with an equal serial stays in front of the new one. -/
def insert (q : SerialCommandQueue α) (serial : Nat) (command : α) : SerialCommandQueue α :=
  { q with
    list := q.list.rdropWhile (fun e => e.1 > serial) ++
      (serial, command) :: q.list.rtakeWhile (fun e => e.1 > serial) }

def push (q : SerialCommandQueue α) (serial : Nat) (command : α) :
    SerialCommandQueue α × List (Nat × α) :=
  if serial < q.nextSerial then (q, [(serial, command)])
  else if serial = q.nextSerial then
    let (q', executed) := consume { q with nextSerial := q.nextSerial + 1 }
    (q', (serial, command) :: executed)
  else (q.insert serial command, [])

/-- The destructor cancels the held commands from the front. -/
def destroy (q : SerialCommandQueue α) : List α := q.list.map Prod.snd

/-- A queue after a sequence of `Push` calls, with everything it has executed. -/
def run (pushes : List (Nat × α)) : SerialCommandQueue α × List (Nat × α) :=
  pushes.foldl (fun (q, executed) (serial, command) =>
    ((q.push serial command).1, executed ++ (q.push serial command).2)) ({}, [])

@[simp] theorem run_nil : run ([] : List (Nat × α)) = ({}, []) := rfl

@[simp] theorem run_concat (pushes : List (Nat × α)) (p : Nat × α) :
    run (pushes ++ [p]) =
      (((run pushes).1.push p.1 p.2).1, (run pushes).2 ++ ((run pushes).1.push p.1 p.2).2) := by
  simp [run]

/-- The serials of a list of entries. -/
abbrev serials (entries : List (Nat × α)) : List Nat := entries.map Prod.fst

-- ---------------------------------------------------------------------------
-- What the operations do
-- ---------------------------------------------------------------------------

/-- `Consume` takes a run of consecutive serials off the front, and stops at an
entry that is not the next one. -/
theorem consumeFrom_spec (next : Nat) (l : List (Nat × α)) :
    l = (consumeFrom next l).2 ++ (consumeFrom next l).1.list ∧
    serials (consumeFrom next l).2 = List.range' next (consumeFrom next l).2.length ∧
    (consumeFrom next l).1.nextSerial = next + (consumeFrom next l).2.length ∧
    ∀ e ∈ (consumeFrom next l).1.list.head?, e.1 ≠ (consumeFrom next l).1.nextSerial := by
  induction l generalizing next with
  | nil => simp [consumeFrom]
  | cons e rest ih =>
    obtain ⟨serial, command⟩ := e
    by_cases hs : serial = next
    · subst hs
      obtain ⟨hsplit, hserials, hnext, hhead⟩ := ih (serial + 1)
      simp only [consumeFrom, ne_eq, not_true_eq_false, if_false]
      refine ⟨?_, ?_, ?_, hhead⟩
      · rw [List.cons_append, ← hsplit]
      · rw [serials, List.map_cons, List.length_cons, List.range'_succ, ← hserials]
      · rw [hnext, List.length_cons]; omega
    · simp [consumeFrom, hs]

theorem insert_perm (q : SerialCommandQueue α) (serial : Nat) (command : α) :
    (q.insert serial command).list ~ (serial, command) :: q.list := by
  refine List.perm_middle.trans (.cons _ ?_)
  rw [List.rdropWhile_append_rtakeWhile]

/-- A push that executes nothing has a serial beyond the awaited one. -/
theorem executed_push_eq_nil_iff (q : SerialCommandQueue α) (serial : Nat) (command : α) :
    (q.push serial command).2 = [] ↔ q.nextSerial < serial := by
  rw [push]
  split
  · simp only [List.cons_ne_self, false_iff]
    omega
  split
  · simp only [reduceCtorEq, false_iff]
    omega
  · simp only [true_iff]
    omega

/-- A push neither loses nor invents a command. -/
theorem push_perm (q : SerialCommandQueue α) (serial : Nat) (command : α) :
    (q.push serial command).2 ++ (q.push serial command).1.list ~ (serial, command) :: q.list := by
  unfold push
  split
  · exact .refl _
  split
  · obtain ⟨hsplit, -⟩ := consumeFrom_spec (q.nextSerial + 1) q.list
    simp only [consume]
    rw [List.cons_append, ← hsplit]
  · exact insert_perm q serial command

/-- What every sequence of pushes preserves, repeated serials or not: nothing is
lost or invented, what is executed lies below `next_serial_`, and every serial
below it has been executed at least once. -/
structure Accounts (pushes : List (Nat × α)) (q : SerialCommandQueue α)
    (executed : List (Nat × α)) : Prop where
  conserved : executed ++ q.list ~ pushes
  below : ∀ e ∈ executed, e.1 < q.nextSerial
  covered : ∀ s < q.nextSerial, s ∈ serials executed
  sorted : q.list.Pairwise (fun a b => a.1 ≤ b.1)

theorem insert_sorted {q : SerialCommandQueue α} (serial : Nat) (command : α)
    (hsorted : q.list.Pairwise (fun a b => a.1 ≤ b.1)) :
    (q.insert serial command).list.Pairwise (fun a b => a.1 ≤ b.1) := by
  have hsplit : q.list.rdropWhile (fun e => e.1 > serial) ++
      q.list.rtakeWhile (fun e => e.1 > serial) = q.list := List.rdropWhile_append_rtakeWhile
  have hparts := hsorted
  rw [← hsplit, List.pairwise_append] at hparts
  obtain ⟨hfront, hback, hcross⟩ := hparts
  -- the scan stops at an entry that is not larger, and the list is sorted up to it
  have hle : ∀ e ∈ q.list.rdropWhile (fun e => e.1 > serial), e.1 ≤ serial := by
    intro e he
    have hne := List.ne_nil_of_mem he
    have hlast : (List.getLast _ hne).1 ≤ serial := by
      simpa using List.rdropWhile_last_not (fun e : Nat × α => decide (e.1 > serial)) _ hne
    have hmem := List.dropLast_append_getLast hne ▸ he
    rcases List.mem_append.mp hmem with h | h
    · rw [← List.dropLast_append_getLast hne, List.pairwise_append] at hfront
      exact (hfront.2.2 e h _ (List.mem_singleton_self _)).trans hlast
    · rw [List.mem_singleton.mp h]
      exact hlast
  have hgt : ∀ e ∈ q.list.rtakeWhile (fun e => e.1 > serial), serial < e.1 := by
    intro e he
    simpa using List.mem_rtakeWhile_imp he
  refine List.pairwise_append.mpr ⟨hfront, List.pairwise_cons.mpr ⟨?_, hback⟩, ?_⟩
  · intro e he
    exact (hgt e he).le
  · intro a ha b hb
    rcases List.mem_cons.mp hb with rfl | hb
    · exact hle a ha
    · exact hcross a ha b hb

theorem Accounts.push {pushes : List (Nat × α)} {q : SerialCommandQueue α}
    {executed : List (Nat × α)} (h : Accounts pushes q executed) (serial : Nat) (command : α) :
    Accounts (pushes ++ [(serial, command)]) (q.push serial command).1
      (executed ++ (q.push serial command).2) := by
  have hconserved : executed ++ (q.push serial command).2 ++ (q.push serial command).1.list ~
      pushes ++ [(serial, command)] := by
    rw [List.append_assoc]
    calc executed ++ ((q.push serial command).2 ++ (q.push serial command).1.list)
      _ ~ executed ++ (serial, command) :: q.list := .append_left _ (push_perm ..)
      _ ~ (serial, command) :: (executed ++ q.list) := List.perm_middle
      _ ~ (serial, command) :: pushes := h.conserved.cons _
      _ ~ pushes ++ [(serial, command)] := (List.perm_append_singleton _ _).symm
  obtain ⟨hbelow, hcovered, hsorted⟩ :
      (∀ e ∈ executed ++ (q.push serial command).2, e.1 < (q.push serial command).1.nextSerial) ∧
      (∀ s < (q.push serial command).1.nextSerial,
        s ∈ serials (executed ++ (q.push serial command).2)) ∧
      (q.push serial command).1.list.Pairwise (fun a b => a.1 ≤ b.1) := by
    unfold SerialCommandQueue.push
    split
    · -- a serial already passed: executed at once, the queue stays as it is
      rename_i hlt
      refine ⟨?_, ?_, h.sorted⟩
      · intro e he
        rcases List.mem_append.mp he with he | he
        · exact h.below e he
        · rw [List.mem_singleton.mp he]
          exact hlt
      · intro s hs
        simpa using Or.inl (by simpa using h.covered s hs)
    split
    · -- the awaited serial: executed together with the run of serials behind it
      rename_i hnlt heq
      subst heq
      obtain ⟨hsplit, hserials, hnext, -⟩ := consumeFrom_spec (q.nextSerial + 1) q.list
      simp only [consume]
      set consumed := consumeFrom (q.nextSerial + 1) q.list with hconsumed
      refine ⟨?_, ?_, ?_⟩
      · intro e he
        rw [hnext]
        rcases List.mem_append.mp he with he | he
        · have := h.below e he
          omega
        rcases List.mem_cons.mp he with rfl | he
        · show q.nextSerial < _
          omega
        · have hmem : e.1 ∈ serials consumed.2 := List.mem_map_of_mem he
          rw [hserials, List.mem_range'_1] at hmem
          omega
      · intro s hs
        rw [hnext] at hs
        rw [serials, List.map_append, List.map_cons, List.mem_append, List.mem_cons]
        by_cases hlt : s < q.nextSerial
        · exact .inl (h.covered s hlt)
        by_cases heq : s = q.nextSerial
        · exact .inr (.inl heq)
        · refine .inr (.inr ?_)
          show s ∈ serials consumed.2
          rw [hserials, List.mem_range'_1]
          omega
      · have := h.sorted
        rw [hsplit, List.pairwise_append] at this
        exact this.2.1
    · -- a later serial: held back
      refine ⟨?_, ?_, insert_sorted serial command h.sorted⟩
      · rw [List.append_nil]
        exact h.below
      · rw [List.append_nil]
        exact h.covered
  exact ⟨hconserved, hbelow, hcovered, hsorted⟩

theorem run_accounts (pushes : List (Nat × α)) :
    Accounts pushes (run pushes).1 (run pushes).2 := by
  induction pushes using List.reverseRecOn with
  | nil => exact ⟨.refl _, by simp, by simp, .nil⟩
  | append_singleton pushes p ih =>
    rw [run_concat]
    exact ih.push p.1 p.2

-- ---------------------------------------------------------------------------
-- Repeated serials
-- ---------------------------------------------------------------------------

/-- The state a queue should be in after `pushes`: it awaits the least serial
not pushed yet, holds later serials only, in order, and has executed every
command it has passed exactly once. So no repeated serial blocks a later one. -/
structure InOrder (pushes : List (Nat × α)) (q : SerialCommandQueue α)
    (executed : List (Nat × α)) : Prop where
  least : IsLeast {s | s ∉ serials pushes} q.nextSerial
  sorted : q.list.Pairwise (fun a b => a.1 ≤ b.1)
  ahead : ∀ e ∈ q.list, q.nextSerial < e.1
  executedOnce : executed ~ pushes.filter (fun p => p.1 < q.nextSerial)
  unblocked : ∀ n, (∀ s ≤ n, s ∈ serials pushes) → ∀ p ∈ pushes, p.1 ≤ n → p ∈ executed

/-- Once nothing held lies behind `next_serial_`, the accounts give the rest. -/
theorem Accounts.inOrder {pushes : List (Nat × α)} {q : SerialCommandQueue α}
    {executed : List (Nat × α)} (h : Accounts pushes q executed)
    (hahead : ∀ e ∈ q.list, q.nextSerial < e.1) : InOrder pushes q executed := by
  have hpushed : ∀ s, s ∈ serials pushes ↔ s ∈ serials executed ∨ s ∈ serials q.list := by
    intro s
    rw [← (h.conserved.map Prod.fst).mem_iff, List.map_append, List.mem_append]
  have hnext : q.nextSerial ∉ serials pushes := by
    rw [hpushed]
    rintro (hmem | hmem)
    · obtain ⟨e, he, heq⟩ := List.mem_map.mp hmem
      exact absurd (h.below e he) (by omega)
    · obtain ⟨e, he, heq⟩ := List.mem_map.mp hmem
      exact absurd (hahead e he) (by omega)
  have honce : executed ~ pushes.filter (fun p => p.1 < q.nextSerial) := by
    have hfilter := h.conserved.filter (fun p => decide (p.1 < q.nextSerial))
    have hall : executed.filter (fun p => p.1 < q.nextSerial) = executed :=
      List.filter_eq_self.mpr fun e he => decide_eq_true (h.below e he)
    have hnone : q.list.filter (fun p => p.1 < q.nextSerial) = [] :=
      List.filter_eq_nil_iff.mpr fun e he => by simpa using (hahead e he).le
    rwa [List.filter_append, hall, hnone, List.append_nil] at hfilter
  refine ⟨⟨hnext, fun s hs => ?_⟩, h.sorted, hahead, honce, ?_⟩
  · by_contra hlt
    exact hs ((hpushed s).mpr (.inl (h.covered s (not_le.mp hlt))))
  · intro n hn p hp hle
    refine honce.mem_iff.mpr (List.mem_filter.mpr ⟨hp, decide_eq_true ?_⟩)
    by_contra hge
    exact hnext (hn _ (by omega))

/-- The push supplies a missing serial, and every serial from there up to one
that has arrived twice is already there. -/
def FillsGapBelowRepeat (pushes : List (Nat × α)) (serial : Nat) : Prop :=
  serial ∉ serials pushes ∧
    ∃ s, serial < s ∧ (∀ t ≤ s, t ≠ serial → t ∈ serials pushes) ∧ 2 ≤ (serials pushes).count s

/-- A serial beyond `next_serial_` is held as often as it has been pushed. -/
theorem Accounts.count_held {pushes : List (Nat × α)} {q : SerialCommandQueue α}
    {executed : List (Nat × α)} (h : Accounts pushes q executed) {s : Nat}
    (hs : q.nextSerial ≤ s) : (serials q.list).count s = (serials pushes).count s := by
  have hcount := (h.conserved.map Prod.fst).count_eq s
  rw [List.map_append, List.count_append] at hcount
  have hnone : (serials executed).count s = 0 := by
    refine List.count_eq_zero.mpr fun hmem => ?_
    obtain ⟨e, he, heq⟩ := List.mem_map.mp hmem
    exact absurd (h.below e he) (by omega)
  simpa [hnone] using hcount

/-- Consuming a sorted list from `next` leaves an entry behind exactly when a
run of consecutive serials from `next` on ends in one that is there twice. -/
theorem consumeFrom_ahead_iff {next : Nat} {l : List (Nat × α)}
    (hsorted : l.Pairwise (fun a b => a.1 ≤ b.1)) (hnext : ∀ e ∈ l, next ≤ e.1) :
    (∀ e ∈ (consumeFrom next l).1.list, (consumeFrom next l).1.nextSerial < e.1) ↔
      ¬ ∃ s, next ≤ s ∧ (∀ t, next ≤ t → t ≤ s → t ∈ serials l) ∧ 2 ≤ (serials l).count s := by
  obtain ⟨hsplit, hserials, hadvance, hhead⟩ := consumeFrom_spec next l
  set consumed := consumeFrom next l with hconsumed
  have htaken : ∀ t, t ∈ serials consumed.2 ↔ next ≤ t ∧ t < consumed.1.nextSerial := by
    intro t
    rw [hserials, List.mem_range'_1, hadvance]
  have hcount : ∀ s, (serials l).count s =
      (serials consumed.2).count s + (serials consumed.1.list).count s := by
    intro s
    rw [← List.count_append, ← List.map_append, ← hsplit]
  have hmem : ∀ s, s ∈ serials l ↔ s ∈ serials consumed.2 ∨ s ∈ serials consumed.1.list := by
    intro s
    rw [← List.mem_append, ← List.map_append, ← hsplit]
  constructor
  · rintro hahead ⟨s, hle, hrun, htwice⟩
    have hrest : ∀ t ≤ consumed.1.nextSerial, t ∉ serials consumed.1.list := by
      rintro t ht hmem
      obtain ⟨e, he, rfl⟩ := List.mem_map.mp hmem
      exact absurd (hahead e he) (by omega)
    by_cases hs : s < consumed.1.nextSerial
    · -- the run was consumed, so one of the two copies is still in the list
      have hone : (serials consumed.2).count s ≤ 1 := by
        rw [hserials]
        exact List.nodup_iff_count_le_one.mp List.nodup_range' s
      have hzero := List.count_eq_zero.mpr (hrest s hs.le)
      have := hcount s
      omega
    · -- the run goes on past the point where consuming stopped
      rcases (hmem _).mp (hrun consumed.1.nextSerial (by omega) (by omega)) with h | h
      · have := ((htaken _).mp h).2
        omega
      · exact hrest _ le_rfl h
  · intro hno e he
    by_contra hbehind
    -- the first entry left over lies behind as well, and it is not the awaited one
    obtain ⟨e₀, rest, hlist⟩ := List.exists_cons_of_ne_nil (List.ne_nil_of_mem he)
    have hne : e₀.1 ≠ consumed.1.nextSerial := hhead e₀ (by simp [hlist])
    have hle : e₀.1 ≤ e.1 := by
      have hrest : consumed.1.list.Pairwise (fun a b => a.1 ≤ b.1) := by
        rw [hsplit, List.pairwise_append] at hsorted
        exact hsorted.2.1
      rw [hlist, List.pairwise_cons] at hrest
      rcases List.mem_cons.mp (hlist ▸ he) with rfl | h
      · exact le_rfl
      · exact hrest.1 e h
    have hmem₀ : e₀ ∈ consumed.1.list := by simp [hlist]
    have hge : next ≤ e₀.1 := hnext e₀ (hsplit ▸ List.mem_append_right _ hmem₀)
    refine hno ⟨e₀.1, hge, fun t h₁ h₂ => ?_, ?_⟩
    · exact (hmem t).mpr (.inl ((htaken t).mpr ⟨h₁, by omega⟩))
    · have h₁ : 0 < (serials consumed.2).count e₀.1 :=
        List.count_pos_iff.mpr ((htaken _).mpr ⟨hge, by omega⟩)
      have h₂ : 0 < (serials consumed.1.list).count e₀.1 :=
        List.count_pos_iff.mpr (List.mem_map_of_mem hmem₀)
      have := hcount e₀.1
      omega

theorem InOrder.push_iff {pushes : List (Nat × α)} {q : SerialCommandQueue α}
    {executed : List (Nat × α)} (h : InOrder pushes q executed) (ha : Accounts pushes q executed)
    (serial : Nat) (command : α) :
    InOrder (pushes ++ [(serial, command)]) (q.push serial command).1
        (executed ++ (q.push serial command).2) ↔
      ¬ FillsGapBelowRepeat pushes serial := by
  have hgap : q.nextSerial ∉ serials pushes := h.least.1
  have hpassed : ∀ s < q.nextSerial, s ∈ serials pushes := fun s hs => by
    by_contra hmem
    exact absurd (h.least.2 hmem) (by omega)
  have hahead_iff : InOrder (pushes ++ [(serial, command)]) (q.push serial command).1
        (executed ++ (q.push serial command).2) ↔
      ∀ e ∈ (q.push serial command).1.list, (q.push serial command).1.nextSerial < e.1 :=
    ⟨InOrder.ahead, (ha.push serial command).inOrder⟩
  rw [hahead_iff]
  rcases lt_trichotomy serial q.nextSerial with hlt | rfl | hgt
  · have hpush : q.push serial command = (q, [(serial, command)]) := if_pos hlt
    rw [hpush]
    exact iff_of_true h.ahead fun ⟨hnew, _⟩ => hnew (hpassed serial hlt)
  · have hpush : (q.push q.nextSerial command).1 = (consumeFrom (q.nextSerial + 1) q.list).1 := by
      simp [SerialCommandQueue.push, consume]
    rw [hpush, consumeFrom_ahead_iff h.sorted (fun e he => h.ahead e he)]
    refine not_congr ⟨?_, ?_⟩
    · rintro ⟨s, hle, hrun, htwice⟩
      refine ⟨hgap, s, hle, fun t ht hne => ?_, ?_⟩
      · rcases lt_or_gt_of_ne hne with hlt | hgt
        · exact hpassed t hlt
        · have := List.count_pos_iff.mpr (hrun t hgt ht)
          rw [ha.count_held hgt.le] at this
          exact List.count_pos_iff.mp this
      · rwa [ha.count_held (by omega)] at htwice
    · rintro ⟨-, s, hlt, hrun, htwice⟩
      refine ⟨s, hlt, fun t h₁ h₂ => ?_, ?_⟩
      · have := List.count_pos_iff.mpr (hrun t h₂ (by omega))
        rw [← ha.count_held (by omega)] at this
        exact List.count_pos_iff.mp this
      · rwa [ha.count_held hlt.le]
  · have hpush : q.push serial command = (q.insert serial command, []) := by
      rw [SerialCommandQueue.push, if_neg (by omega), if_neg (by omega)]
    rw [hpush]
    refine iff_of_true (fun e he => ?_) fun ⟨_, s, hlt, hrun, _⟩ => ?_
    · rcases List.mem_cons.mp ((insert_perm q serial command).mem_iff.mp he) with rfl | he
      · exact hgt
      · exact h.ahead e he
    · -- the awaited serial itself is missing below the repeated one
      exact hgap (hrun q.nextSerial (by omega) (by omega))

theorem inOrder_of_no_gap {pushes : List (Nat × α)}
    (h : ∀ before p, before ++ [p] <+: pushes → ¬ FillsGapBelowRepeat before p.1) :
    InOrder pushes (run pushes).1 (run pushes).2 := by
  induction pushes using List.reverseRecOn with
  | nil => exact (run_accounts []).inOrder (by simp)
  | append_singleton pushes p ih =>
    have hpushes := ih fun before p' h' => h before p' (h'.trans (List.prefix_append _ _))
    rw [run_concat]
    exact (hpushes.push_iff (run_accounts pushes) p.1 p.2).mpr (h pushes p (List.prefix_refl _))

/-- The queue is in order after every push exactly when no push closes the gap
in front of a serial that has been pushed twice meanwhile. -/
theorem inOrder_iff_no_gap_below_repeat (pushes : List (Nat × α)) :
    (∀ before, before <+: pushes → InOrder before (run before).1 (run before).2) ↔
      ∀ before p, before ++ [p] <+: pushes → ¬ FillsGapBelowRepeat before p.1 := by
  constructor
  · intro h before p hpre
    have hbefore := h before ((List.prefix_append before [p]).trans hpre)
    have hafter := h (before ++ [p]) hpre
    rw [run_concat] at hafter
    exact (hbefore.push_iff (run_accounts before) p.1 p.2).mp hafter
  · intro h before hpre
    exact inOrder_of_no_gap fun earlier p h' => h earlier p (h'.trans hpre)

/-- Serial 1 arrives twice before serial 0. Both copies are held, one is
executed, and the other stays in front of the queue for good. -/
theorem not_inOrder_of_repeat :
    ¬ ∀ before, before <+: [(1, 'a'), (1, 'b'), (0, 'c')] →
      InOrder before (run before).1 (run before).2 := by
  intro h
  have hlast := h [(1, 'a'), (1, 'b'), (0, 'c')] (List.prefix_refl _)
  exact absurd (hlast.ahead (1, 'b') (by decide)) (by decide)

-- ---------------------------------------------------------------------------
-- Distinct serials
-- ---------------------------------------------------------------------------

theorem not_fillsGapBelowRepeat {pushes : List (Nat × α)} (hnodup : (serials pushes).Nodup)
    (serial : Nat) : ¬ FillsGapBelowRepeat pushes serial := by
  rintro ⟨-, s, -, -, htwice⟩
  have := List.nodup_iff_count_le_one.mp hnodup s
  omega

theorem inOrder_of_nodup {pushes : List (Nat × α)} (hnodup : (serials pushes).Nodup) :
    InOrder pushes (run pushes).1 (run pushes).2 := by
  refine inOrder_of_no_gap fun before p hpre => ?_
  have hsub := ((List.prefix_append before [p]).trans hpre).sublist.map Prod.fst
  exact not_fillsGapBelowRepeat (hnodup.sublist hsub) p.1

/-- With distinct serials the commands executed so far are those of the serials
`0, 1, …` in this order, up to the first serial that is missing. -/
theorem serials_executed_of_nodup {pushes : List (Nat × α)} (hnodup : (serials pushes).Nodup) :
    serials (run pushes).2 = List.range (run pushes).1.nextSerial := by
  induction pushes using List.reverseRecOn with
  | nil => rfl
  | append_singleton pushes p ih =>
    rw [serials, List.map_append, List.nodup_append] at hnodup
    obtain ⟨hbefore, -, hnew⟩ := hnodup
    have hne : p.1 ∉ serials pushes := fun h => hnew p.1 h p.1 (by simp) rfl
    have hle : (run pushes).1.nextSerial ≤ p.1 := (inOrder_of_nodup hbefore).least.2 hne
    rw [run_concat, serials, List.map_append, ← serials, ih hbefore]
    rw [SerialCommandQueue.push, if_neg (by omega)]
    split
    · rename_i heq
      obtain ⟨-, hserials, hnext, -⟩ :=
        consumeFrom_spec ((run pushes).1.nextSerial + 1) (run pushes).1.list
      simp only [consume, List.map_cons]
      rw [← serials, hserials, hnext, heq, ← List.range'_succ, Nat.add_right_comm, Nat.add_assoc]
      simp only [List.range_eq_range']
      rw [← List.range'_append_1 (s := 0), Nat.zero_add]
    · simp [SerialCommandQueue.insert]

end SerialCommandQueue

end ZenRemote.Client
