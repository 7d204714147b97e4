-- SUMMARY: The readers-writer lock, with any number of threads that read, write, sleep and are woken.
import Mathlib.Data.UInt
import ZenRemote.Lib.Machine
import ZenRemote.Lib.Threads

/-!
# The readers-writer lock

Readers and writers wait on one condition variable. A wait releases the mutex and
falls asleep at once, so everything between two waits is one step. A thread that is
asleep can be woken at any time; it takes the mutex and looks at its condition again.
-/

namespace ZenRemote

universe u

structure ReadersWriterLock where
  activeReaderCount : UInt32 := 0
  waitingWriterCount : UInt32 := 0
  writerActive : Bool := false
  deriving DecidableEq, Repr

namespace ReadersWriterLock

/-- What `BeginRead` waits for. -/
def mayRead (l : ReadersWriterLock) : Bool := l.waitingWriterCount = 0 && !l.writerActive

/-- What `BeginWrite` waits for. -/
def mayWrite (l : ReadersWriterLock) : Bool := l.activeReaderCount = 0 && l.writerActive = false

/-- Where a thread is with respect to the lock. A thread that is asleep in a wait
may have been notified since it fell asleep. -/
inductive Pc where
  | outside
  | waitingToRead (notified : Bool)
  | reading
  | waitingToWrite (notified : Bool)
  | writing
  deriving DecidableEq, Repr

namespace Pc

def notify : Pc → Pc
  | .waitingToRead _ => .waitingToRead true
  | .waitingToWrite _ => .waitingToWrite true
  | pc => pc

def isReading : Pc → Bool
  | .reading => true
  | _ => false

def isWriting : Pc → Bool
  | .writing => true
  | _ => false

def isWaitingToWrite : Pc → Bool
  | .waitingToWrite _ => true
  | _ => false

@[simp] theorem isReading_notify (pc : Pc) : pc.notify.isReading = pc.isReading := by
  cases pc with
  | _ => rfl

@[simp] theorem isWriting_notify (pc : Pc) : pc.notify.isWriting = pc.isWriting := by
  cases pc with
  | _ => rfl

@[simp] theorem isWaitingToWrite_notify (pc : Pc) :
    pc.notify.isWaitingToWrite = pc.isWaitingToWrite := by
  cases pc with
  | _ => rfl

/-- Nobody who is asleep is left without a notification. -/
theorem notify_ne (pc : Pc) : pc.notify ≠ .waitingToRead false ∧ pc.notify ≠ .waitingToWrite false := by
  cases pc with
  | _ => exact ⟨nofun, nofun⟩

end Pc

structure State (τ : Type u) where
  lock : ReadersWriterLock := {}
  threads : τ → Pc := fun _ => .outside

inductive Label (τ : Type u) where
  | beginRead (t : τ)
  | endRead (t : τ)
  | beginWrite (t : τ)
  | endWrite (t : τ)
  /-- Thread `t` returns from its sleep, notified or spuriously. -/
  | wake (t : τ)

namespace State

variable {τ : Type u} [DecidableEq τ]

def moveTo (s : State τ) (t : τ) (pc : Pc) : State τ :=
  { s with threads := Function.update s.threads t pc }

/-- `cond_.notify_all`. -/
def notifyAll (s : State τ) : State τ := { s with threads := fun t => (s.threads t).notify }

/-- The wait of `BeginRead`, and what follows it. -/
def tryRead (s : State τ) (t : τ) : State τ :=
  if s.lock.mayRead then
    { s with lock := { s.lock with activeReaderCount := s.lock.activeReaderCount + 1 } }.moveTo t
      .reading
  else s.moveTo t (.waitingToRead false)

/-- The wait of `BeginWrite`, and what follows it. -/
def tryWrite (s : State τ) (t : τ) : State τ :=
  if s.lock.mayWrite then
    { s with lock := { s.lock with
        waitingWriterCount := s.lock.waitingWriterCount - 1
        writerActive := true } }.moveTo t .writing
  else s.moveTo t (.waitingToWrite false)

def beginWrite (s : State τ) (t : τ) : State τ :=
  { s with lock := { s.lock with waitingWriterCount := s.lock.waitingWriterCount + 1 } }.tryWrite t

def endRead (s : State τ) (t : τ) : State τ :=
  let s := { s with lock := { s.lock with activeReaderCount := s.lock.activeReaderCount - 1 } }.moveTo t
    .outside
  if s.lock.activeReaderCount = 0 then s.notifyAll else s

def endWrite (s : State τ) (t : τ) : State τ :=
  ({ s with lock := { s.lock with writerActive := false } }.moveTo t .outside).notifyAll

def step (s : State τ) : Label τ → Option (State τ)
  | .beginRead t => if s.threads t = .outside then some (s.tryRead t) else none
  | .endRead t => if s.threads t = .reading then some (s.endRead t) else none
  | .beginWrite t => if s.threads t = .outside then some (s.beginWrite t) else none
  | .endWrite t => if s.threads t = .writing then some (s.endWrite t) else none
  | .wake t =>
    match s.threads t with
    | .waitingToRead _ => some (s.tryRead t)
    | .waitingToWrite _ => some (s.tryWrite t)
    | _ => none

end State

def machine (τ : Type u) [DecidableEq τ] : Machine (State τ) (Label τ) where
  init := {}
  step := State.step

-- ---------------------------------------------------------------------------
-- The invariant
-- ---------------------------------------------------------------------------

open Threads

variable {τ : Type u} [Fintype τ] {s s' : State τ} {t : τ}

/-- The counters tell how many threads are where, and whoever is asleep and has not been
notified waits for something that does not hold. -/
structure Consistent (s : State τ) : Prop where
  readers : s.lock.activeReaderCount.toNat = count Pc.isReading s.threads
  waiting : s.lock.waitingWriterCount.toNat = count Pc.isWaitingToWrite s.threads
  writers : s.lock.writerActive.toNat = count Pc.isWriting s.threads
  exclusive : s.lock.writerActive → s.lock.activeReaderCount = 0
  asleepReader : ∀ t, s.threads t = .waitingToRead false → s.lock.mayRead = false
  asleepWriter : ∀ t, s.threads t = .waitingToWrite false → s.lock.mayWrite = false

theorem mayRead_eq_true {l : ReadersWriterLock} :
    l.mayRead = true ↔ l.waitingWriterCount = 0 ∧ l.writerActive = false := by
  simp [mayRead]

theorem mayWrite_eq_true {l : ReadersWriterLock} :
    l.mayWrite = true ↔ l.activeReaderCount = 0 ∧ l.writerActive = false := by
  simp [mayWrite]

theorem toNat_add_one {a : UInt32} {n : Nat} (ha : a.toNat = n) (hn : n + 1 < 2 ^ 32) :
    (a + 1).toNat = n + 1 := by
  rw [UInt32.toNat_add, ha]
  exact Nat.mod_eq_of_lt hn

theorem toNat_sub_one {a : UInt32} {n : Nat} (ha : a.toNat = n + 1) : (a - 1).toNat = n := by
  have hlt := a.toNat_lt
  have hone : (1 : UInt32).toNat = 1 := rfl
  rw [UInt32.toNat_sub, ha, hone]
  omega

theorem consistent_init : Consistent ({} : State τ) := by
  refine ⟨?_, ?_, ?_, nofun, nofun, nofun⟩
  · exact (count_eq_zero.mpr fun _ => rfl).symm
  · exact (count_eq_zero.mpr fun _ => rfl).symm
  · exact (count_eq_zero.mpr fun _ => rfl).symm

/-- Once everybody has been notified only the counters matter. -/
theorem consistent_notifyAll (hreaders : s.lock.activeReaderCount.toNat = count Pc.isReading s.threads)
    (hwaiting : s.lock.waitingWriterCount.toNat = count Pc.isWaitingToWrite s.threads)
    (hwriters : s.lock.writerActive.toNat = count Pc.isWriting s.threads)
    (hexclusive : s.lock.writerActive → s.lock.activeReaderCount = 0) : Consistent s.notifyAll where
  readers := hreaders.trans (count_congr fun t => (s.threads t).isReading_notify).symm
  waiting := hwaiting.trans (count_congr fun t => (s.threads t).isWaitingToWrite_notify).symm
  writers := hwriters.trans (count_congr fun t => (s.threads t).isWriting_notify).symm
  exclusive := hexclusive
  asleepReader := fun t ht => absurd ht (s.threads t).notify_ne.1
  asleepWriter := fun t ht => absurd ht (s.threads t).notify_ne.2

variable [DecidableEq τ]

/-- A thread moves between places that no counter tells of. -/
theorem Consistent.asleep (h : Consistent s) {pc : Pc} (hreading : (s.threads t).isReading = pc.isReading)
    (hwaiting : (s.threads t).isWaitingToWrite = pc.isWaitingToWrite)
    (hwriting : (s.threads t).isWriting = pc.isWriting)
    (hreader : pc = .waitingToRead false → s.lock.mayRead = false)
    (hwriter : pc = .waitingToWrite false → s.lock.mayWrite = false) : Consistent (s.moveTo t pc) := by
  have hcount : ∀ p : Pc → Bool, p (s.threads t) = p pc →
      count p (Function.update s.threads t pc) = count p s.threads := by
    intro p hp
    have hupdate := count_update p s.threads t pc
    rw [hp] at hupdate
    exact Nat.add_right_cancel hupdate
  refine ⟨?_, ?_, ?_, h.exclusive, ?_, ?_⟩
  · exact h.readers.trans (hcount _ hreading).symm
  · exact h.waiting.trans (hcount _ hwaiting).symm
  · exact h.writers.trans (hcount _ hwriting).symm
  · intro t' ht'
    obtain ⟨-, hpc⟩ | ⟨-, ht'⟩ := eq_of_update ht'
    · exact hreader hpc
    · exact h.asleepReader t' ht'
  · intro t' ht'
    obtain ⟨-, hpc⟩ | ⟨-, ht'⟩ := eq_of_update ht'
    · exact hwriter hpc
    · exact h.asleepWriter t' ht'

theorem Consistent.tryRead (h : Consistent s) (hcard : Fintype.card τ < 2 ^ 32)
    (hreading : (s.threads t).isReading = false) (hwaiting : (s.threads t).isWaitingToWrite = false)
    (hwriting : (s.threads t).isWriting = false) : Consistent (s.tryRead t) := by
  unfold State.tryRead
  split
  · rename_i hmay
    obtain ⟨hnone, hinactive⟩ := mayRead_eq_true.mp hmay
    have hreaders := count_update Pc.isReading s.threads t .reading
    have hwaiters := count_update Pc.isWaitingToWrite s.threads t .reading
    have hwriters := count_update Pc.isWriting s.threads t .reading
    rw [hreading] at hreaders
    rw [hwaiting] at hwaiters
    rw [hwriting] at hwriters
    have hroom := count_lt_card hreading
    have hcounted : (s.lock.activeReaderCount + 1).toNat = count Pc.isReading s.threads + 1 :=
      toNat_add_one h.readers (by omega)
    have hsome : s.lock.activeReaderCount + 1 ≠ 0 := by
      intro hzero
      rw [hzero] at hcounted
      cases hcounted
    refine ⟨?_, ?_, ?_, ?_, ?_, ?_⟩
    · exact hcounted.trans hreaders.symm
    · exact h.waiting.trans hwaiters.symm
    · exact h.writers.trans hwriters.symm
    · intro hactive
      rw [State.moveTo, hinactive] at hactive
      cases hactive
    · intro t' ht'
      obtain ⟨-, ⟨⟩⟩ | ⟨-, ht'⟩ := eq_of_update ht'
      cases (h.asleepReader t' ht').symm.trans hmay
    · intro _ _
      exact Bool.eq_false_iff.mpr fun hwrite => hsome (mayWrite_eq_true.mp hwrite).1
  · rename_i hmay
    exact h.asleep hreading hwaiting hwriting (fun _ => Bool.eq_false_iff.mpr hmay) nofun

/-- The thread is counted as a waiting writer already, on either way into the wait. -/
theorem consistent_tryWrite (hreaders : s.lock.activeReaderCount.toNat = count Pc.isReading s.threads)
    (hwaiting : s.lock.waitingWriterCount.toNat + (s.threads t).isWaitingToWrite.toNat =
      count Pc.isWaitingToWrite s.threads + 1)
    (hwriters : s.lock.writerActive.toNat = count Pc.isWriting s.threads)
    (hexclusive : s.lock.writerActive → s.lock.activeReaderCount = 0)
    (hasleepReader : ∀ t, s.threads t = .waitingToRead false → s.lock.mayRead = false)
    (hasleepWriter : ∀ t' ≠ t, s.threads t' = .waitingToWrite false → s.lock.mayWrite = false)
    (hreading : (s.threads t).isReading = false) (hwriting : (s.threads t).isWriting = false) :
    Consistent (s.tryWrite t) := by
  unfold State.tryWrite
  split
  · rename_i hmay
    obtain ⟨hnone, hinactive⟩ := mayWrite_eq_true.mp hmay
    have hreaders' := count_update Pc.isReading s.threads t .writing
    have hwaiters' := count_update Pc.isWaitingToWrite s.threads t .writing
    have hwriters' := count_update Pc.isWriting s.threads t .writing
    rw [hreading] at hreaders'
    rw [hwriting] at hwriters'
    rw [hinactive] at hwriters
    refine ⟨hreaders.trans hreaders'.symm, ?_, ?_, fun _ => hnone, ?_, ?_⟩
    · have hcount : s.lock.waitingWriterCount.toNat =
          count Pc.isWaitingToWrite (Function.update s.threads t .writing) + 1 := by
        have hzero : Pc.writing.isWaitingToWrite.toNat = 0 := rfl
        omega
      exact toNat_sub_one hcount
    · exact (hwriters'.trans (congrArg (· + 1) hwriters.symm)).symm
    · exact fun _ _ => Bool.eq_false_iff.mpr fun hread => nomatch (mayRead_eq_true.mp hread).2
    · exact fun _ _ => Bool.eq_false_iff.mpr fun hwrite => nomatch (mayWrite_eq_true.mp hwrite).2
  · rename_i hmay
    have hreaders' := count_update Pc.isReading s.threads t (.waitingToWrite false)
    have hwaiters' := count_update Pc.isWaitingToWrite s.threads t (.waitingToWrite false)
    have hwriters' := count_update Pc.isWriting s.threads t (.waitingToWrite false)
    rw [hreading] at hreaders'
    rw [hwriting] at hwriters'
    refine ⟨hreaders.trans hreaders'.symm, ?_, hwriters.trans hwriters'.symm, hexclusive, ?_, ?_⟩
    · have hone : (Pc.waitingToWrite false).isWaitingToWrite.toNat = 1 := rfl
      show s.lock.waitingWriterCount.toNat =
        count Pc.isWaitingToWrite (Function.update s.threads t (.waitingToWrite false))
      omega
    · intro t' ht'
      obtain ⟨-, ⟨⟩⟩ | ⟨-, ht'⟩ := eq_of_update ht'
      exact hasleepReader t' ht'
    · intro t' ht'
      obtain ⟨-, -⟩ | ⟨hne, ht'⟩ := eq_of_update ht'
      · exact Bool.eq_false_iff.mpr hmay
      · exact hasleepWriter t' hne ht'

theorem Consistent.beginWrite (h : Consistent s) (hcard : Fintype.card τ < 2 ^ 32)
    (ht : s.threads t = .outside) : Consistent (s.beginWrite t) := by
  have hroom : count Pc.isWaitingToWrite s.threads < Fintype.card τ :=
    count_lt_card (congrArg Pc.isWaitingToWrite ht)
  have hcounted : (s.lock.waitingWriterCount + 1).toNat = count Pc.isWaitingToWrite s.threads + 1 :=
    toNat_add_one h.waiting (by omega)
  have hsome : s.lock.waitingWriterCount + 1 ≠ 0 := by
    intro hzero
    rw [hzero] at hcounted
    cases hcounted
  refine consistent_tryWrite h.readers ?_ h.writers h.exclusive ?_ (fun t' _ => h.asleepWriter t')
    (congrArg Pc.isReading ht) (congrArg Pc.isWriting ht)
  · rw [congrArg Pc.isWaitingToWrite ht]
    exact hcounted
  · exact fun _ _ => Bool.eq_false_iff.mpr fun hread => hsome (mayRead_eq_true.mp hread).1

theorem Consistent.wakeWriter (h : Consistent s) {notified : Bool}
    (ht : s.threads t = .waitingToWrite notified) : Consistent (s.tryWrite t) := by
  refine consistent_tryWrite h.readers ?_ h.writers h.exclusive h.asleepReader
    (fun t' _ => h.asleepWriter t') (congrArg Pc.isReading ht) (congrArg Pc.isWriting ht)
  rw [congrArg Pc.isWaitingToWrite ht, h.waiting]
  rfl

theorem Consistent.endRead (h : Consistent s) (ht : s.threads t = .reading) :
    Consistent (s.endRead t) := by
  have hreaders := count_update Pc.isReading s.threads t .outside
  have hwaiters := count_update Pc.isWaitingToWrite s.threads t .outside
  have hwriters := count_update Pc.isWriting s.threads t .outside
  rw [congrArg Pc.isReading ht] at hreaders
  rw [congrArg Pc.isWaitingToWrite ht] at hwaiters
  rw [congrArg Pc.isWriting ht] at hwriters
  have hcounted : (s.lock.activeReaderCount - 1).toNat =
      count Pc.isReading (Function.update s.threads t .outside) :=
    toNat_sub_one (h.readers.trans hreaders.symm)
  have hsome : s.lock.activeReaderCount ≠ 0 := by
    intro hzero
    have hpos := count_pos (p := Pc.isReading) (congrArg Pc.isReading ht)
    rw [← h.readers, hzero] at hpos
    exact absurd hpos (Nat.lt_irrefl 0)
  have hexclusive : s.lock.writerActive → s.lock.activeReaderCount - 1 = 0 :=
    fun hactive => absurd (h.exclusive hactive) hsome
  unfold State.endRead
  dsimp only
  split
  · exact consistent_notifyAll hcounted (h.waiting.trans hwaiters.symm)
      (h.writers.trans hwriters.symm) hexclusive
  · rename_i hleft
    refine ⟨hcounted, h.waiting.trans hwaiters.symm, h.writers.trans hwriters.symm, hexclusive, ?_, ?_⟩
    · intro t' ht'
      obtain ⟨-, ⟨⟩⟩ | ⟨-, ht'⟩ := eq_of_update ht'
      exact h.asleepReader t' ht'
    · exact fun _ _ => Bool.eq_false_iff.mpr fun hwrite => hleft (mayWrite_eq_true.mp hwrite).1

theorem Consistent.endWrite (h : Consistent s) (ht : s.threads t = .writing) :
    Consistent (s.endWrite t) := by
  have hreaders := count_update Pc.isReading s.threads t .outside
  have hwaiters := count_update Pc.isWaitingToWrite s.threads t .outside
  have hwriters := count_update Pc.isWriting s.threads t .outside
  rw [congrArg Pc.isReading ht] at hreaders
  rw [congrArg Pc.isWaitingToWrite ht] at hwaiters
  rw [congrArg Pc.isWriting ht, ← h.writers] at hwriters
  refine consistent_notifyAll (h.readers.trans hreaders.symm) (h.waiting.trans hwaiters.symm) ?_ nofun
  have hle : s.lock.writerActive.toNat ≤ 1 := Bool.toNat_le _
  have hone : Pc.writing.isWriting.toNat = 1 := rfl
  have hzero : Pc.outside.isWriting.toNat = 0 := rfl
  show 0 = count Pc.isWriting (Function.update s.threads t .outside)
  omega

theorem Consistent.step (h : Consistent s) (hcard : Fintype.card τ < 2 ^ 32) {l : Label τ}
    (hstep : s.step l = some s') : Consistent s' := by
  cases l with
  | beginRead t =>
    obtain ⟨ht, rfl⟩ := Option.ite_none_right_eq_some.mp hstep |>.imp_right Option.some.inj
    exact h.tryRead hcard (congrArg Pc.isReading ht) (congrArg Pc.isWaitingToWrite ht)
      (congrArg Pc.isWriting ht)
  | endRead t =>
    obtain ⟨ht, rfl⟩ := Option.ite_none_right_eq_some.mp hstep |>.imp_right Option.some.inj
    exact h.endRead ht
  | beginWrite t =>
    obtain ⟨ht, rfl⟩ := Option.ite_none_right_eq_some.mp hstep |>.imp_right Option.some.inj
    exact h.beginWrite hcard ht
  | endWrite t =>
    obtain ⟨ht, rfl⟩ := Option.ite_none_right_eq_some.mp hstep |>.imp_right Option.some.inj
    exact h.endWrite ht
  | wake t =>
    rw [State.step] at hstep
    split at hstep
    · rename_i ht
      cases hstep
      exact h.tryRead hcard (congrArg Pc.isReading ht) (congrArg Pc.isWaitingToWrite ht)
        (congrArg Pc.isWriting ht)
    · rename_i ht
      cases hstep
      exact h.wakeWriter ht
    · cases hstep

-- ---------------------------------------------------------------------------
-- What the lock promises
-- ---------------------------------------------------------------------------

/-- Readers share the lock, a writer has it alone, the counters are right, and no wake-up
is lost. -/
structure Safe (s : State τ) : Prop where
  exclusive : count Pc.isWriting s.threads = 0 ∨
    (count Pc.isWriting s.threads = 1 ∧ count Pc.isReading s.threads = 0)
  activeReaderCount : s.lock.activeReaderCount.toNat = count Pc.isReading s.threads
  waitingWriterCount : s.lock.waitingWriterCount.toNat = count Pc.isWaitingToWrite s.threads
  reader : ∀ t, s.threads t = .waitingToRead false → s.lock.mayRead = false
  writer : ∀ t, s.threads t = .waitingToWrite false → s.lock.mayWrite = false

/-- A thread that becomes a reader finds no writer waiting. -/
def AdmitsReaders (s s' : State τ) : Prop :=
  ∀ t, s.threads t ≠ .reading → s'.threads t = .reading → count Pc.isWaitingToWrite s.threads = 0

omit [DecidableEq τ] in
theorem Consistent.safe (h : Consistent s) : Safe s := by
  refine ⟨?_, h.readers, h.waiting, h.asleepReader, h.asleepWriter⟩
  cases hactive : s.lock.writerActive with
  | false =>
    left
    rw [← h.writers, hactive]
    rfl
  | true =>
    right
    rw [← h.writers, ← h.readers, hactive, h.exclusive hactive]
    exact ⟨rfl, rfl⟩

theorem Consistent.admits_tryRead (h : Consistent s) (t : τ) : AdmitsReaders s (s.tryRead t) := by
  intro t' hbefore hafter
  unfold State.tryRead at hafter
  split at hafter
  · rename_i hmay
    rw [← h.waiting, (mayRead_eq_true.mp hmay).1]
    rfl
  · obtain ⟨-, ⟨⟩⟩ | ⟨-, hafter⟩ := eq_of_update hafter
    exact absurd hafter hbefore

omit [Fintype τ] in
theorem not_reading_update {places : τ → Pc} {t t' : τ} {pc : Pc} (hpc : pc ≠ .reading)
    (hbefore : places t' ≠ .reading) : Function.update places t pc t' ≠ .reading := by
  intro hafter
  obtain ⟨-, hafter⟩ | ⟨-, hafter⟩ := eq_of_update hafter
  · exact hpc hafter
  · exact hbefore hafter

theorem not_reading_notify {pc : Pc} (hpc : pc ≠ .reading) : pc.notify ≠ .reading := by
  cases pc with
  | reading => exact absurd rfl hpc
  | outside | waitingToRead _ | waitingToWrite _ | writing => exact nofun

omit [Fintype τ] in
theorem not_reading_tryWrite {t' : τ} (hbefore : s.threads t' ≠ .reading) :
    (s.tryWrite t).threads t' ≠ .reading := by
  unfold State.tryWrite
  split
  · exact not_reading_update nofun hbefore
  · exact not_reading_update nofun hbefore

theorem Consistent.admits (h : Consistent s) {l : Label τ} (hstep : s.step l = some s') :
    AdmitsReaders s s' := by
  cases l with
  | beginRead t =>
    obtain ⟨-, rfl⟩ := Option.ite_none_right_eq_some.mp hstep |>.imp_right Option.some.inj
    exact h.admits_tryRead t
  | endRead t =>
    obtain ⟨-, rfl⟩ := Option.ite_none_right_eq_some.mp hstep |>.imp_right Option.some.inj
    intro t' hbefore hafter
    have hleft : Function.update s.threads t .outside t' ≠ .reading := not_reading_update nofun hbefore
    unfold State.endRead at hafter
    dsimp only at hafter
    split at hafter
    · exact absurd hafter (not_reading_notify hleft)
    · exact absurd hafter hleft
  | beginWrite t =>
    obtain ⟨-, rfl⟩ := Option.ite_none_right_eq_some.mp hstep |>.imp_right Option.some.inj
    exact fun t' hbefore hafter => absurd hafter (not_reading_tryWrite hbefore)
  | endWrite t =>
    obtain ⟨-, rfl⟩ := Option.ite_none_right_eq_some.mp hstep |>.imp_right Option.some.inj
    exact fun t' hbefore hafter => absurd hafter (not_reading_notify (not_reading_update nofun hbefore))
  | wake t =>
    rw [State.step] at hstep
    split at hstep
    · cases hstep
      exact h.admits_tryRead t
    · cases hstep
      exact fun t' hbefore hafter => absurd hafter (not_reading_tryWrite hbefore)
    · cases hstep

theorem consistent_run (hcard : Fintype.card τ < 2 ^ 32) {ls : List (Label τ)}
    (hrun : (machine τ).run ls = some s) : Consistent s :=
  Machine.run_invariant consistent_init (fun _ _ _ h hstep => h.step hcard hstep) hrun

/-- With fewer than 2^32 threads, in every state that is reached, and in every step from it. -/
theorem safe_run (hcard : Fintype.card τ < 2 ^ 32) {ls : List (Label τ)}
    (hrun : (machine τ).run ls = some s) :
    Safe s ∧ ∀ l s', (machine τ).step s l = some s' → AdmitsReaders s s' := by
  have h := consistent_run hcard hrun
  exact ⟨h.safe, fun l s' hstep => h.admits hstep⟩

/-- A reader, a writer that waits for it, and a reader that waits for the writer. -/
def readerBehindWriter : List (Label (Fin 3)) :=
  [.beginRead 0, .beginWrite 1, .beginRead 2, .endRead 0, .wake 1]

theorem safe_readerBehindWriter : ∃ s, (machine (Fin 3)).run readerBehindWriter = some s ∧
    Safe s ∧ ∀ l s', (machine (Fin 3)).step s l = some s' → AdmitsReaders s s' :=
  ⟨_, rfl, safe_run (by decide) (rfl : (machine (Fin 3)).run readerBehindWriter = some _)⟩

end ReadersWriterLock

end ZenRemote
