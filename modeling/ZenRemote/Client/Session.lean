-- SUMMARY: The client session with its command queues, one per channel, and what dropping idle queues does to a channel.
import Mathlib.Data.Finset.Card
import ZenRemote.Client.SerialCommandQueue
import ZenRemote.Lib.AssocList

/-!
# The client session

A session keeps one `SerialCommandQueue` for each channel of the server. To
bound their number, `PushCommand` drops every idle queue once there are more
than a hundred. The second half of the file compares this with a session that
never drops a queue.
-/

namespace ZenRemote.Client

open scoped List

universe u v

/-- `command_queues_`, by channel id. -/
abbrev CommandQueues (α : Type u) := AList (fun _ : Nat => SerialCommandQueue α)

namespace CommandQueues

variable {α : Type u}

/-- The queue `try_emplace` finds for a channel, or creates. -/
def queueOf (queues : CommandQueues α) (channelId : Nat) : SerialCommandQueue α :=
  (queues.lookup channelId).getD {}

/-- The clean-up loop of `PushCommand`. -/
def eraseEmpty (queues : CommandQueues α) : CommandQueues α where
  entries := queues.entries.filter (fun e => !e.2.isEmpty)
  nodupKeys := queues.nodupKeys.sublist List.filter_sublist

def pushCommand (queues : CommandQueues α) (serial channelId : Nat) (command : α) :
    CommandQueues α × List (Nat × α) :=
  let (queue, executed) := (queues.queueOf channelId).push serial command
  let queues := queues.insert channelId queue
  (if queues.entries.length > 100 then eraseEmpty queues else queues, executed)

/-- The commands that the destructors of the queues cancel, which are those held. -/
def destroy (queues : CommandQueues α) : List α := queues.contents SerialCommandQueue.destroy

end CommandQueues

/-- A client session. `Pool` is the state of the resources the session owns, and
a keepalive call is known by a number. -/
structure Session (α : Type u) (Pool : Type v) where
  id : Nat
  resources : Pool
  active : Bool := true
  commandQueues : CommandQueues α := ∅
  keepaliveCaller : Option Nat := none

namespace Session

variable {α : Type u} {Pool : Type v}

/-- `pool()`, empty once the session has been shut down. -/
def pool (s : Session α Pool) : Option Pool := if s.active then some s.resources else none

def setResources (s : Session α Pool) (resources : Pool) : Session α Pool := { s with resources }

/-- The attached keepalive call is finished. -/
def shutdown (s : Session α Pool) : Session α Pool × List Nat :=
  ({ s with active := false, keepaliveCaller := none }, s.keepaliveCaller.toList)

def pushCommand (s : Session α Pool) (serial channelId : Nat) (command : α) :
    Session α Pool × List (Nat × α) :=
  let (queues, executed) := s.commandQueues.pushCommand serial channelId command
  ({ s with commandQueues := queues }, executed)

/-- What the destructor cancels. -/
def destroy (s : Session α Pool) : List α := s.commandQueues.destroy

end Session

namespace CommandQueues

variable {α : Type u}

@[simp] theorem queueOf_empty (c : Nat) : queueOf (∅ : CommandQueues α) c = {} := rfl

theorem queueOf_insert (queues : CommandQueues α) (c c' : Nat) (q : SerialCommandQueue α) :
    queueOf (queues.insert c' q) c = if c = c' then q else queues.queueOf c := by
  split
  · rename_i h
    subst h
    simp [queueOf]
  · rename_i h
    simp [queueOf, AList.lookup_insert_ne h]

theorem lookup_eraseEmpty (queues : CommandQueues α) (c : Nat) :
    queues.eraseEmpty.lookup c = (queues.lookup c).filter (fun q => !q.isEmpty) := by
  ext q
  simp only [AList.lookup, ← Option.mem_def, Option.mem_filter_iff]
  rw [List.mem_dlookup_iff queues.eraseEmpty.nodupKeys, List.mem_dlookup_iff queues.nodupKeys]
  simp [eraseEmpty]

theorem keys_eraseEmpty_subset (queues : CommandQueues α) :
    AList.keys (eraseEmpty queues) ⊆ queues.keys :=
  (List.Sublist.map Sigma.fst List.filter_sublist).subset

theorem queueOf_eraseEmpty (queues : CommandQueues α) (c : Nat) :
    queueOf queues.eraseEmpty c =
      if (queues.queueOf c).isEmpty then {} else queues.queueOf c := by
  rw [queueOf, lookup_eraseEmpty, queueOf]
  cases queues.lookup c with
  | none => simp
  | some q => cases hq : q.isEmpty <;> simp [Option.filter_some, hq]

/-- The clean-up drops no command, whichever queues it erases. -/
theorem list_queueOf_pushCommand (queues : CommandQueues α) (serial channelId : Nat) (command : α)
    (c : Nat) :
    (queueOf (queues.pushCommand serial channelId command).1 c).list =
      if c = channelId then ((queues.queueOf channelId).push serial command).1.list
      else (queues.queueOf c).list := by
  have hpushed : (queueOf (queues.insert channelId
      ((queues.queueOf channelId).push serial command).1) c).list =
      if c = channelId then ((queues.queueOf channelId).push serial command).1.list
      else (queues.queueOf c).list := by
    rw [queueOf_insert]
    split <;> rfl
  rw [← hpushed]
  simp only [pushCommand]
  split_ifs
  · rw [queueOf_eraseEmpty]
    split
    · rename_i hempty
      exact (List.isEmpty_iff.mp hempty).symm
    · rfl
  · rfl

theorem destroy_eraseEmpty (queues : CommandQueues α) :
    destroy (eraseEmpty queues) = destroy queues := by
  simp only [destroy, AList.contents, eraseEmpty]
  induction queues.entries with
  | nil => rfl
  | cons e entries ih =>
    cases hempty : e.2.isEmpty with
    | false => simp [hempty, ih]
    | true =>
      have hnil : e.2.destroy = [] := by
        rw [SerialCommandQueue.destroy, List.isEmpty_iff.mp hempty, List.map_nil]
      simp [hempty, hnil, ih]

/-- A command pushed to a session is executed or held, and so is every command held before. -/
theorem pushCommand_perm (queues : CommandQueues α) (serial channelId : Nat) (command : α) :
    (queues.pushCommand serial channelId command).2.map Prod.snd ++
      destroy (queues.pushCommand serial channelId command).1 ~ command :: destroy queues := by
  set pushed := (queues.queueOf channelId).push serial command with hpushed
  set rest := AList.contents SerialCommandQueue.destroy (AList.erase channelId queues) with hrest
  have hafter : destroy (queues.pushCommand serial channelId command).1 =
      pushed.1.destroy ++ rest := by
    simp only [pushCommand]
    rw [← AList.contents_insert]
    split
    · exact destroy_eraseEmpty _
    · rfl
  have hbefore : destroy queues ~ (queues.queueOf channelId).destroy ++ rest := by
    cases hlookup : queues.lookup channelId with
    | none =>
      rw [queueOf, hlookup, hrest, AList.contents_of_not_mem _ hlookup]
      exact .refl _
    | some queue =>
      rw [queueOf, hlookup]
      exact AList.contents_of_lookup _ hlookup
  have hpush := (SerialCommandQueue.push_perm (queues.queueOf channelId) serial command).map Prod.snd
  rw [List.map_append, List.map_cons, ← hpushed] at hpush
  calc pushed.2.map Prod.snd ++ destroy (queues.pushCommand serial channelId command).1
    _ = pushed.2.map Prod.snd ++ pushed.1.destroy ++ rest := by rw [hafter, List.append_assoc]
    _ ~ command :: (queues.queueOf channelId).destroy ++ rest := hpush.append_right rest
    _ ~ command :: destroy queues := hbefore.symm.cons command

end CommandQueues

/-- The arguments of one `PushCommand` call. -/
structure PushArgs (α : Type u) where
  serial : Nat
  channelId : Nat
  command : α
  deriving DecidableEq, Repr

namespace CommandQueues

variable {α : Type u}

/-- The queues after a sequence of calls, and what has been executed on each channel. -/
structure Run (α : Type u) where
  queues : CommandQueues α := ∅
  executed : Nat → List (Nat × α) := fun _ => []

def Run.push (r : Run α) (call : PushArgs α) : Run α where
  queues := (r.queues.pushCommand call.serial call.channelId call.command).1
  executed := fun c =>
    if c = call.channelId then
      r.executed c ++ (r.queues.pushCommand call.serial call.channelId call.command).2
    else r.executed c

def run (calls : List (PushArgs α)) : Run α := calls.foldl Run.push {}

@[simp] theorem run_nil : run ([] : List (PushArgs α)) = {} := rfl

@[simp] theorem run_concat (calls : List (PushArgs α)) (call : PushArgs α) :
    run (calls ++ [call]) = (run calls).push call := by
  simp [run]

-- ---------------------------------------------------------------------------
-- Private queues
-- ---------------------------------------------------------------------------

/-- What the calls push to one channel. -/
def pushesOn (c : Nat) (calls : List (PushArgs α)) : List (Nat × α) :=
  (calls.filter (fun call => call.channelId = c)).map (fun call => (call.serial, call.command))

/-- A queue kept for one channel since the start of the session. -/
def privateQueue (c : Nat) (calls : List (PushArgs α)) :
    SerialCommandQueue α × List (Nat × α) :=
  SerialCommandQueue.run (pushesOn c calls)

/-- The serials of each channel are pairwise distinct. -/
def DistinctSerials (calls : List (PushArgs α)) : Prop :=
  ∀ c, (SerialCommandQueue.serials (pushesOn c calls)).Nodup

theorem pushesOn_concat (c : Nat) (calls : List (PushArgs α)) (call : PushArgs α) :
    pushesOn c (calls ++ [call]) =
      if c = call.channelId then pushesOn c calls ++ [(call.serial, call.command)]
      else pushesOn c calls := by
  by_cases h : call.channelId = c
  · simp [pushesOn, h]
  · simp [pushesOn, h, Ne.symm h]

theorem DistinctSerials.of_prefix {calls calls' : List (PushArgs α)}
    (h : DistinctSerials calls) (hpre : calls' <+: calls) : DistinctSerials calls' := by
  intro c
  exact (h c).sublist (((hpre.sublist.filter _).map _).map _)

/-- The commands executed on every channel are those its private queue has executed. -/
def AgreesWithPrivate (calls : List (PushArgs α)) : Prop :=
  ∀ c, ((run calls).executed c).map Prod.snd = (privateQueue c calls).2.map Prod.snd

/-- A call moves commands of its own channel only, from the queue or its
argument to the executed ones or into the queue. -/
theorem mem_pushesOn (calls : List (PushArgs α)) (c : Nat) :
    (∀ e ∈ ((run calls).queues.queueOf c).list, e ∈ pushesOn c calls) ∧
      ∀ e ∈ (run calls).executed c, e ∈ pushesOn c calls := by
  induction calls using List.reverseRecOn with
  | nil => simp
  | append_singleton calls call ih =>
    obtain ⟨hheld, hexecuted⟩ := ih
    have hpush : ∀ e, e ∈ (((run calls).queues.queueOf c).push call.serial call.command).2 ∨
        e ∈ (((run calls).queues.queueOf c).push call.serial call.command).1.list →
          e ∈ pushesOn c calls ∨ e = (call.serial, call.command) := by
      intro e he
      rw [← List.mem_append, (SerialCommandQueue.push_perm ..).mem_iff, List.mem_cons] at he
      exact he.symm.imp_left (hheld e)
    rw [run_concat, pushesOn_concat]
    simp only [Run.push, list_queueOf_pushCommand]
    by_cases hc : c = call.channelId
    · subst hc
      simp only [pushCommand, if_true, List.mem_append, List.mem_singleton]
      exact ⟨fun e he => hpush e (.inr he), fun e he => he.elim (fun he => .inl (hexecuted e he))
        fun he => hpush e (.inl he)⟩
    · simp only [hc, if_false]
      exact ⟨hheld, hexecuted⟩

-- ---------------------------------------------------------------------------
-- Dropped queues
-- ---------------------------------------------------------------------------

/-- The clean-up of this call erases the queue of channel `c`. -/
def Erases (queues : CommandQueues α) (call : PushArgs α) (c : Nat) : Prop :=
  let queues' := queues.insert call.channelId
    ((queues.queueOf call.channelId).push call.serial call.command).1
  100 < queues'.entries.length ∧ ∃ q, queues'.lookup c = some q ∧ q.isEmpty

/-- Some clean-up has erased the queue of channel `c`. -/
def ErasedBefore (calls : List (PushArgs α)) (c : Nat) : Prop :=
  ∃ earlier call, earlier ++ [call] <+: calls ∧ Erases (run earlier).queues call c

/-- The call brings the least serial its channel is still missing. -/
def Awaited (calls : List (PushArgs α)) (call : PushArgs α) : Prop :=
  IsLeast {s | s ∉ SerialCommandQueue.serials (pushesOn call.channelId calls)} call.serial

theorem erasedBefore_concat (calls : List (PushArgs α)) (call : PushArgs α) (c : Nat) :
    ErasedBefore (calls ++ [call]) c ↔
      ErasedBefore calls c ∨ Erases (run calls).queues call c := by
  constructor
  · rintro ⟨earlier, call', hpre, herases⟩
    rcases List.prefix_concat_iff.mp hpre with heq | hpre
    · obtain ⟨rfl, hcall⟩ := List.append_inj' heq rfl
      obtain rfl := List.singleton_inj.mp hcall
      exact .inr herases
    · exact .inl ⟨earlier, call', hpre, herases⟩
  · rintro (⟨earlier, call', hpre, herases⟩ | herases)
    · exact ⟨earlier, call', hpre.trans (List.prefix_append _ _), herases⟩
    · exact ⟨calls, call, List.prefix_refl _, herases⟩

/-- How a session that drops queues relates to the private queues. A channel
whose queue was erased awaits serial 0 again, which has already been pushed, and
holds what its private queue holds. -/
structure Tracks (calls : List (PushArgs α)) : Prop where
  kept : ∀ c, ¬ ErasedBefore calls c →
    (run calls).queues.queueOf c = (privateQueue c calls).1
  restarted : ∀ c, ErasedBefore calls c →
    (run calls).queues.queueOf c = ⟨0, (privateQueue c calls).1.list⟩ ∧
      0 ∈ SerialCommandQueue.serials (pushesOn c calls)
  used : ∀ c, ∀ q ∈ (run calls).queues.lookup c, q.isEmpty → 0 < q.nextSerial
  executed : ∀ c, (run calls).executed c = (privateQueue c calls).2

theorem Tracks.nil : Tracks ([] : List (PushArgs α)) where
  kept := fun _ _ => rfl
  restarted := by
    rintro c ⟨earlier, call, hpre, -⟩
    simp at hpre
  used := by simp
  executed := fun _ => rfl

end CommandQueues

/-- A queue that has been pushed to is empty only after it has executed something. -/
theorem SerialCommandQueue.push_used {α : Type u} (q : SerialCommandQueue α) (serial : Nat)
    (command : α) (hempty : (q.push serial command).1.isEmpty) :
    0 < (q.push serial command).1.nextSerial := by
  rw [push] at hempty ⊢
  split
  · show 0 < q.nextSerial
    omega
  split
  · obtain ⟨-, -, hnext, -⟩ := consumeFrom_spec (q.nextSerial + 1) q.list
    simp only [consume, hnext]
    omega
  · rename_i hlt hne
    simp [hlt, hne, isEmpty, insert] at hempty

namespace CommandQueues

variable {α : Type u}

section Step

variable {calls : List (PushArgs α)} {call : PushArgs α}

/-- The queues of the session once the command is pushed, before the clean-up. -/
private abbrev pushed (calls : List (PushArgs α)) (call : PushArgs α) : CommandQueues α :=
  (run calls).queues.insert call.channelId
    (((run calls).queues.queueOf call.channelId).push call.serial call.command).1

private theorem privateQueue_concat (c : Nat) :
    privateQueue c (calls ++ [call]) =
      if c = call.channelId then
        (((privateQueue c calls).1.push call.serial call.command).1,
          (privateQueue c calls).2 ++ ((privateQueue c calls).1.push call.serial call.command).2)
      else privateQueue c calls := by
  rw [privateQueue, pushesOn_concat]
  split
  · rw [SerialCommandQueue.run_concat]
    rfl
  · rfl

private theorem privateQueue_least {c : Nat}
    (hnodup : (SerialCommandQueue.serials (pushesOn c calls)).Nodup) :
    IsLeast {s | s ∉ SerialCommandQueue.serials (pushesOn c calls)}
      (privateQueue c calls).1.nextSerial :=
  (SerialCommandQueue.inOrder_of_nodup hnodup).least

/-- An erased channel that is not sent what it awaits only holds the command
back, and so does its private queue. -/
private theorem Tracks.push_restarted (h : Tracks calls)
    (hdistinct : DistinctSerials (calls ++ [call])) (herased : ErasedBefore calls call.channelId)
    (hawaited : ¬ Awaited calls call) :
    ((run calls).queues.queueOf call.channelId).push call.serial call.command =
        (⟨0, ((privateQueue call.channelId calls).1.insert call.serial call.command).list⟩, []) ∧
      (privateQueue call.channelId calls).1.push call.serial call.command =
        ((privateQueue call.channelId calls).1.insert call.serial call.command, []) := by
  obtain ⟨hqueue, hzero⟩ := h.restarted _ herased
  have hnodup := hdistinct call.channelId
  rw [pushesOn_concat, if_pos rfl, SerialCommandQueue.serials, List.map_append,
    List.nodup_append] at hnodup
  obtain ⟨hnodup, -, hnew⟩ := hnodup
  have hleast := privateQueue_least hnodup
  have hserial : call.serial ∉ SerialCommandQueue.serials (pushesOn call.channelId calls) :=
    fun hmem => hnew _ hmem call.serial (by simp) rfl
  have hle := hleast.2 hserial
  have hne : call.serial ≠ (privateQueue call.channelId calls).1.nextSerial :=
    fun heq => hawaited (by rwa [Awaited, heq])
  have hpos : call.serial ≠ 0 := fun heq => hserial (heq ▸ hzero)
  constructor
  · rw [hqueue, SerialCommandQueue.push, if_neg (by simp), if_neg hpos]
    rfl
  · rw [SerialCommandQueue.push, if_neg (by omega), if_neg hne]

private theorem Tracks.pushed_kept (h : Tracks calls) {c : Nat} (hkept : ¬ ErasedBefore calls c) :
    queueOf (pushed calls call) c = (privateQueue c (calls ++ [call])).1 := by
  rw [queueOf_insert, privateQueue_concat]
  split
  · rename_i heq
    rw [← heq, h.kept c hkept]
  · exact h.kept c hkept

private theorem Tracks.pushed_restarted (h : Tracks calls)
    (hdistinct : DistinctSerials (calls ++ [call]))
    (hok : ¬ (ErasedBefore calls call.channelId ∧ Awaited calls call)) {c : Nat}
    (herased : ErasedBefore calls c) :
    queueOf (pushed calls call) c = ⟨0, (privateQueue c (calls ++ [call])).1.list⟩ ∧
      0 ∈ SerialCommandQueue.serials (pushesOn c (calls ++ [call])) := by
  obtain ⟨hqueue, hzero⟩ := h.restarted c herased
  rw [queueOf_insert, privateQueue_concat, pushesOn_concat]
  split
  · rename_i heq
    subst heq
    obtain ⟨hreal, hprivate⟩ := h.push_restarted hdistinct herased fun ha => hok ⟨herased, ha⟩
    rw [hreal, hprivate]
    refine ⟨rfl, ?_⟩
    rw [SerialCommandQueue.serials, List.map_append]
    exact List.mem_append_left _ hzero
  · exact ⟨hqueue, hzero⟩

private theorem Tracks.push_executed (h : Tracks calls)
    (hdistinct : DistinctSerials (calls ++ [call]))
    (hok : ¬ (ErasedBefore calls call.channelId ∧ Awaited calls call)) (c : Nat) :
    (run (calls ++ [call])).executed c = (privateQueue c (calls ++ [call])).2 := by
  rw [run_concat, privateQueue_concat]
  simp only [Run.push, pushCommand, h.executed c]
  split
  · rename_i heq
    subst heq
    by_cases herased : ErasedBefore calls call.channelId
    · obtain ⟨hreal, hprivate⟩ := h.push_restarted hdistinct herased fun ha => hok ⟨herased, ha⟩
      rw [hreal, hprivate]
    · rw [h.kept _ herased]
  · rfl

private theorem Tracks.pushed_used (h : Tracks calls) :
    ∀ c, ∀ q ∈ (pushed calls call).lookup c, q.isEmpty → 0 < q.nextSerial := by
  intro c q hq hempty
  by_cases hc : c = call.channelId
  · subst hc
    rw [AList.lookup_insert, Option.mem_some_iff] at hq
    subst hq
    exact SerialCommandQueue.push_used _ _ _ hempty
  · rw [AList.lookup_insert_ne hc] at hq
    exact h.used c q hq hempty

private theorem run_concat_queues :
    (run (calls ++ [call])).queues =
      if 100 < (pushed calls call).entries.length then eraseEmpty (pushed calls call)
      else pushed calls call := by
  rw [run_concat]
  rfl

private theorem queueOf_of_erases {c : Nat} (h : Erases (run calls).queues call c) :
    (queueOf (pushed calls call) c).isEmpty ∧ queueOf (run (calls ++ [call])).queues c = {} := by
  obtain ⟨hbig, q, hq, hempty⟩ := h
  have hqueue : (queueOf (pushed calls call) c).isEmpty := by
    rw [queueOf, hq]
    exact hempty
  refine ⟨hqueue, ?_⟩
  rw [run_concat_queues, if_pos hbig, queueOf_eraseEmpty, if_pos hqueue]

private theorem queueOf_of_not_erases {c : Nat} (h : ¬ Erases (run calls).queues call c) :
    queueOf (run (calls ++ [call])).queues c = queueOf (pushed calls call) c := by
  rw [run_concat_queues]
  split
  · rename_i hbig
    rw [queueOf_eraseEmpty]
    split
    · rename_i hempty
      cases hq : (pushed calls call).lookup c with
      | none => simp [queueOf, hq]
      | some q =>
        rw [queueOf, hq] at hempty
        exact absurd ⟨hbig, q, hq, hempty⟩ h
    · rfl
  · rfl

theorem Tracks.push (h : Tracks calls) (hdistinct : DistinctSerials (calls ++ [call]))
    (hok : ¬ (ErasedBefore calls call.channelId ∧ Awaited calls call)) :
    Tracks (calls ++ [call]) where
  executed := h.push_executed hdistinct hok
  kept := by
    intro c hkept
    rw [erasedBefore_concat, not_or] at hkept
    rw [queueOf_of_not_erases hkept.2]
    exact h.pushed_kept hkept.1
  restarted := by
    intro c herased
    by_cases hnow : Erases (run calls).queues call c
    · obtain ⟨hempty, hqueue⟩ := queueOf_of_erases hnow
      rw [hqueue]
      by_cases hearlier : ErasedBefore calls c
      · obtain ⟨hpushed, hzero⟩ := h.pushed_restarted hdistinct hok hearlier
        rw [hpushed] at hempty
        exact ⟨by rw [List.isEmpty_iff.mp hempty], hzero⟩
      · -- an intact queue that is empty has executed serial 0
        have hpushed : queueOf (pushed calls call) c = (privateQueue c (calls ++ [call])).1 :=
          h.pushed_kept hearlier
        obtain ⟨-, q, hq, -⟩ := hnow
        have hpos : 0 < (privateQueue c (calls ++ [call])).1.nextSerial := by
          rw [← hpushed, queueOf, hq]
          refine h.pushed_used c q hq ?_
          rwa [queueOf, hq] at hempty
        have hzero : 0 ∈ SerialCommandQueue.serials (pushesOn c (calls ++ [call])) := by
          by_contra hmem
          have := (privateQueue_least (hdistinct c)).2 hmem
          omega
        rw [hpushed] at hempty
        exact ⟨by rw [List.isEmpty_iff.mp hempty], hzero⟩
    · rw [queueOf_of_not_erases hnow]
      exact h.pushed_restarted hdistinct hok
        (((erasedBefore_concat ..).mp herased).resolve_right hnow)
  used := by
    intro c q hq hempty
    rw [run_concat_queues] at hq
    split at hq
    · rw [lookup_eraseEmpty, Option.mem_filter_iff] at hq
      simp [hempty] at hq
    · exact h.pushed_used c q hq hempty

/-- An erased channel that is sent what it awaits holds the command back, while
its private queue executes it. -/
private theorem Tracks.disagrees (h : Tracks calls) (hdistinct : DistinctSerials (calls ++ [call]))
    (herased : ErasedBefore calls call.channelId) (hawaited : Awaited calls call) :
    ¬ AgreesWithPrivate (calls ++ [call]) := by
  intro hagrees
  obtain ⟨hqueue, hzero⟩ := h.restarted _ herased
  have hnodup := (hdistinct.of_prefix (List.prefix_append calls [call])) call.channelId
  have hserial := hawaited.unique (privateQueue_least hnodup)
  have hpos : call.serial ≠ 0 := fun heq => hawaited.1 (heq ▸ hzero)
  have hcommands := hagrees call.channelId
  rw [privateQueue_concat, if_pos rfl, run_concat] at hcommands
  simp only [Run.push, pushCommand, if_true, hqueue, h.executed] at hcommands
  have hreal : (SerialCommandQueue.push ⟨0, (privateQueue call.channelId calls).1.list⟩
      call.serial call.command).2 = [] := by
    rw [SerialCommandQueue.push, if_neg (by simp), if_neg hpos]
  rw [hreal, hserial, SerialCommandQueue.push, if_neg (by simp), if_pos rfl] at hcommands
  have hlength := congrArg List.length hcommands
  simp at hlength

end Step

/-- As long as no call brings its awaited serial to an erased channel, the
session tracks the private queues. -/
theorem tracks_of_not_awaited {calls : List (PushArgs α)} (hdistinct : DistinctSerials calls)
    (hok : ∀ before call, before ++ [call] <+: calls →
      ¬ (ErasedBefore before call.channelId ∧ Awaited before call)) : Tracks calls := by
  induction calls using List.reverseRecOn with
  | nil => exact .nil
  | append_singleton calls call ih =>
    have hpre := List.prefix_append calls [call]
    exact (ih (hdistinct.of_prefix hpre) fun before call' h => hok before call' (h.trans hpre)).push
      hdistinct (hok calls call (List.prefix_refl _))

/-- Every channel executes what its private queue executes, after every call,
exactly when no call brings the awaited serial to a channel whose queue the
clean-up has erased before. -/
theorem agreesWithPrivate_iff {calls : List (PushArgs α)} (hdistinct : DistinctSerials calls) :
    (∀ before, before <+: calls → AgreesWithPrivate before) ↔
      ∀ before call, before ++ [call] <+: calls →
        ¬ (ErasedBefore before call.channelId ∧ Awaited before call) := by
  constructor
  · -- by strong induction: up to the first such call the session tracks the private queues
    intro hagrees before
    induction hn : before.length using Nat.strong_induction_on generalizing before with
    | _ n ih =>
      rintro call hpre ⟨herased, hawaited⟩
      have hbefore := (List.prefix_append before [call]).trans hpre
      have hearlier : ∀ earlier call', earlier ++ [call'] <+: before →
          ¬ (ErasedBefore earlier call'.channelId ∧ Awaited earlier call') := by
        intro earlier call' h
        refine ih earlier.length ?_ earlier rfl call' (h.trans hbefore)
        have := h.length_le
        rw [List.length_append, List.length_singleton] at this
        omega
      exact (tracks_of_not_awaited (hdistinct.of_prefix hbefore) hearlier).disagrees
        (hdistinct.of_prefix hpre) herased hawaited (hagrees _ hpre)
  · intro hok before hpre c
    rw [(tracks_of_not_awaited (hdistinct.of_prefix hpre)
      fun earlier call h => hok earlier call (h.trans hpre)).executed c]

theorem DistinctSerials.of_nodup {calls : List (PushArgs α)}
    (h : (calls.map (fun call => (call.channelId, call.serial))).Nodup) :
    DistinctSerials calls := by
  intro c
  rw [SerialCommandQueue.serials, pushesOn, List.map_map]
  refine List.Nodup.map_on ?_ (.filter _ (.of_map _ h))
  intro call₁ h₁ call₂ h₂ hserial
  rw [List.mem_filter, decide_eq_true_iff] at h₁ h₂
  exact List.inj_on_of_nodup_map h h₁.1 h₂.1 (Prod.ext (h₁.2.trans h₂.2.symm) hserial)

theorem agreesWithPrivate_iff_two_calls :
    (∀ before, before <+: [⟨1, 7, 'b'⟩, ⟨0, 7, 'a'⟩] → AgreesWithPrivate before) ↔
      ∀ before call, before ++ [call] <+: [⟨1, 7, 'b'⟩, ⟨0, 7, 'a'⟩] →
        ¬ (ErasedBefore before call.channelId ∧ Awaited before call) :=
  agreesWithPrivate_iff (.of_nodup (by decide))

/-- A hundred and one channels send their first command, and then the first of
them sends its second. -/
def hundredAndOneChannels : List (PushArgs Nat) :=
  (List.range 101).map (fun c => ⟨0, c, c⟩) ++ [⟨1, 0, 101⟩]

/-- The clean-up of the 101st call erases all queues, and the second command of
channel 0 is held back although its only predecessor has been executed. -/
theorem not_agreesWithPrivate_hundredAndOneChannels :
    DistinctSerials hundredAndOneChannels ∧
      ¬ ∀ before, before <+: hundredAndOneChannels → AgreesWithPrivate before := by
  refine ⟨.of_nodup (by decide +kernel), fun h => ?_⟩
  have hzero := h hundredAndOneChannels (List.prefix_refl _) 0
  exact absurd hzero (by decide +kernel)

-- ---------------------------------------------------------------------------
-- Few channels
-- ---------------------------------------------------------------------------

theorem keys_run_subset (calls : List (PushArgs α)) :
    (run calls).queues.keys ⊆ calls.map PushArgs.channelId := by
  induction calls using List.reverseRecOn with
  | nil => simp
  | append_singleton calls call ih =>
    have hpushed : (pushed calls call).keys ⊆ (calls ++ [call]).map PushArgs.channelId := by
      intro c hc
      rw [AList.keys_insert, List.mem_cons] at hc
      rw [List.map_append, List.mem_append]
      rcases hc with rfl | hc
      · exact .inr (by simp)
      · exact .inl (ih (List.mem_of_mem_erase hc))
    rw [run_concat_queues]
    split
    · exact fun c hc => hpushed (keys_eraseEmpty_subset _ hc)
    · exact hpushed

/-- A session with at most a hundred channels never erases a queue. -/
theorem not_erasedBefore_of_card_le {calls : List (PushArgs α)}
    (hfew : (calls.map PushArgs.channelId).toFinset.card ≤ 100) (c : Nat) :
    ¬ ErasedBefore calls c := by
  rintro ⟨earlier, call, hpre, hbig, -⟩
  have hsubset : (pushed earlier call).keys.toFinset ⊆
      (calls.map PushArgs.channelId).toFinset := by
    intro c hc
    rw [List.mem_toFinset, AList.keys_insert, List.mem_cons] at hc
    rw [List.mem_toFinset]
    refine (hpre.sublist.map _).subset ?_
    rw [List.map_append, List.mem_append]
    rcases hc with rfl | hc
    · exact .inr (by simp)
    · exact .inl (keys_run_subset earlier (List.mem_of_mem_erase hc))
  have hcard := Finset.card_le_card hsubset
  rw [List.toFinset_card_of_nodup (AList.keys_nodup _)] at hcard
  have hlength : (pushed earlier call).keys.length = (pushed earlier call).entries.length := by
    simp [AList.keys, List.keys]
  have : 100 < (pushed earlier call).entries.length := hbig
  omega

end CommandQueues

end ZenRemote.Client
