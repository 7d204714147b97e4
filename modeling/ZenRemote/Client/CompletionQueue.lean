-- SUMMARY: The client's completion-queue loop and what other threads do in between, one atomic step at a time.
import ZenRemote.Client.Remote
import ZenRemote.Core.Common
import ZenRemote.Lib.Machine

/-!
# The completion-queue loop

One thread takes events from the completion queue and lets the caller each of
them belongs to proceed. The caller of a session-scoped call compares session
ids, pushes its command, and thereby runs its own handler and those of held
calls, runs none, or is answered at once. The application thread enables and
disables sessions meanwhile, and any thread may hold a pointer to a session.

The steps of `AsyncSessionServiceCaller` are cut where another thread can get in
between: the comparison, `PushCommand`, and the two reads of each handler.
-/

namespace ZenRemote.Client

universe u v w

inductive StatusCode where
  | ok
  | aborted
  deriving DecidableEq, Repr

/-- `grpc::Status`. -/
structure Status where
  code : StatusCode
  message : String := ""
  deriving DecidableEq, Repr

def Status.invalidContext : Status := ⟨.aborted, "Client context is invalid"⟩

def Status.sessionExpired : Status := ⟨.aborted, "Session expired"⟩

/-- A session-scoped call, with the caller object that serves it and the context
`IsSessionContext` reads from its metadata. -/
structure Call (μ : Type u) (ρ : Type v) where
  caller : Nat
  method : μ
  context : RequestContext
  request : ρ
  deriving DecidableEq, Repr

/-- The session-scoped services. A handler that does not return gives `none`. -/
structure Services (μ : Type u) (ρ : Type v) (Pool : Type w) where
  /-- The methods with an `AsyncSessionServiceCaller`, each registered by one `Listen`. -/
  methods : List μ
  nodup : methods.Nodup
  handler : μ → ρ → Pool → Option (Pool × Status)
  /-- The pool of a new session. -/
  pool : Pool

/-- What a handler crashes on. -/
inductive Crash where
  /-- `remote_->current()` is empty. -/
  | noSession
  /-- `pool()` of the session is empty. -/
  | noPool
  /-- The body of the handler. -/
  | handler
  deriving DecidableEq, Repr

/-- Where the completion-queue thread is. Past the comparison it holds a pointer
to the session `sid`. -/
inductive Pc (μ : Type u) (ρ : Type v) where
  | idle
  | compare (call : Call μ ρ)
  | push (call : Call μ ρ) (sid : Nat)
  /-- In `PushCommand`, with the commands that are left to execute. -/
  | running (sid : Nat) (todo : List (Call μ ρ))
  /-- The handler of `call` has read `current()` and got the session `obtained`. -/
  | handler (sid : Nat) (call : Call μ ρ) (todo : List (Call μ ρ)) (obtained : Nat)
  | crashed (crash : Crash) (sid : Nat) (call : Call μ ρ) (todo : List (Call μ ρ))
  deriving DecidableEq, Repr

namespace Pc

variable {μ : Type u} {ρ : Type v}

/-- The calls in the hands of the thread. -/
def calls : Pc μ ρ → List (Call μ ρ)
  | .idle => []
  | .compare call | .push call _ => [call]
  | .running _ todo => todo
  | .handler _ call todo _ | .crashed _ _ call todo => call :: todo

/-- The call whose handler has been invoked. -/
def handling : Pc μ ρ → List (Call μ ρ)
  | .handler _ call _ _ | .crashed _ _ call _ => [call]
  | _ => []

/-- The session whose queue the thread pushes to. -/
def session? : Pc μ ρ → Option Nat
  | .push _ sid | .running sid _ | .handler sid _ _ _ | .crashed _ sid _ _ => some sid
  | _ => none

/-- The pointers to sessions among the local variables of the thread. -/
def pointers : Pc μ ρ → List Nat
  | .push _ sid | .running sid _ | .crashed _ sid _ _ => [sid]
  | .handler sid _ _ obtained => [sid, obtained]
  | _ => []

end Pc

/-- A state of the client. Callers are numbered in the order of their creation.
The last group of fields records what has happened so far. -/
structure State (μ : Type u) (ρ : Type v) (Pool : Type w) where
  remote : Remote (Call μ ρ) Pool := {}
  pc : Pc μ ρ := .idle
  /-- Pointers to sessions that other threads hold. -/
  borrowed : List Nat := []
  /-- The callers that wait for the next call of their method. -/
  waiting : List (μ × Nat)
  nextCaller : Nat
  /-- The callers whose `Finish` has been started but whose event has not been taken. -/
  finishing : List Nat := []
  shutdown : Bool := false
  arrived : List Nat := []
  /-- Which session's queue received the call of which caller. -/
  received : List (Nat × Nat) := []
  handled : List Nat := []
  cancelled : List Nat := []
  /-- The calls of `responder_.Finish`. -/
  finished : List (Nat × Status) := []
  finishEvents : List Nat := []
  /-- The callers that were told that no call will come any more. -/
  cancelEvents : List Nat := []
  deleted : List Nat := []

inductive Label (ρ : Type v) where
  /-- The `i`-th waiting caller gets a call. -/
  | arrive (i : Nat) (context : Option RequestContext) (request : ρ)
  | compare
  | pushCommand
  /-- A handler reads `current()`. -/
  | handlerCurrent
  /-- A handler reads `pool()` and does the rest of its work. -/
  | handlerPool
  /-- `PushCommand` and `Proceed` return. -/
  | pushDone
  /-- The event of the `i`-th `Finish` under way is taken. -/
  | finishEvent (i : Nat)
  | newSession
  | shutdownSession (id : Nat)
  | enableSession
  | disableSession
  /-- Another thread copies `current()`. -/
  | borrow
  /-- It drops its `i`-th pointer. -/
  | giveBack (i : Nat)
  | shutdownServer
  /-- The `i`-th waiting caller learns that the server has been shut down. -/
  | cancelWaiting (i : Nat)

namespace State

variable {μ : Type u} {ρ : Type v} {Pool : Type w}

def finish (s : State μ ρ Pool) (callers : List Nat) (status : Status) : State μ ρ Pool :=
  { s with
    finishing := s.finishing ++ callers
    finished := s.finished ++ callers.map fun caller => (caller, status) }

/-- Sessions without a pointer left are destroyed, and their queues cancel what they hold. -/
def release (s : State μ ρ Pool) : State μ ρ Pool :=
  let out := s.remote.release (s.pc.pointers ++ s.borrowed)
  let callers := out.2.map Call.caller
  { s with remote := out.1, cancelled := s.cancelled ++ callers }.finish callers .sessionExpired

/-- `Proceed` of a caller in `kProcess`, up to the comparison. Its successor is
created first. -/
def arrive (s : State μ ρ Pool) (i : Nat) (context : Option RequestContext) (request : ρ) :
    Option (State μ ρ Pool) :=
  match s.pc, s.waiting[i]? with
  | .idle, some (method, caller) =>
    let s := { s with
      waiting := s.waiting.eraseIdx i ++ [(method, s.nextCaller)]
      nextCaller := s.nextCaller + 1
      arrived := s.arrived ++ [caller] }
    match context with
    | none => some (s.finish [caller] .invalidContext)
    | some context => some { s with pc := .compare ⟨caller, method, context, request⟩ }
  | _, _ => none

/-- `current()` is read and its id compared. -/
def compare (s : State μ ρ Pool) : Option (State μ ρ Pool) :=
  match s.pc with
  | .compare call =>
    match s.remote.currentSession with
    | some session =>
      if session.id ≠ call.context.session then
        some ({ s with pc := .idle }.finish [call.caller] .sessionExpired)
      else some { s with pc := .push call session.id }
    | none => some ({ s with pc := .idle }.finish [call.caller] .sessionExpired)
  | _ => none

/-- `Session::PushCommand`, under `command_queue_mutex_`. Only this thread uses
the queues, so they can be brought up to date before the handlers run. -/
def pushCommand (s : State μ ρ Pool) : Option (State μ ρ Pool) :=
  match s.pc with
  | .push call sid =>
    let push := fun session : Session (Call μ ρ) Pool =>
      session.pushCommand call.context.serial call.context.channel call
    (s.remote.sessions.lookup sid).map fun session =>
      { s with
        remote := s.remote.modify sid fun session => (push session).1
        pc := .running sid ((push session).2.map Prod.snd)
        received := s.received ++ [(call.caller, sid)] }
  | _ => none

def handlerCurrent (s : State μ ρ Pool) : Option (State μ ρ Pool) :=
  match s.pc with
  | .running sid (call :: todo) =>
    some { s with
      pc := match s.remote.current with
        | some id => .handler sid call todo id
        | none => .crashed .noSession sid call todo
      handled := s.handled ++ [call.caller] }
  | _ => none

def handlerPool (services : Services μ ρ Pool) (s : State μ ρ Pool) : Option (State μ ρ Pool) :=
  match s.pc with
  | .handler sid call todo id =>
    match (s.remote.sessions.lookup id).bind Session.pool with
    | none => some { s with pc := .crashed .noPool sid call todo }
    | some pool =>
      match services.handler call.method call.request pool with
      | none => some { s with pc := .crashed .handler sid call todo }
      | some (pool, status) =>
        some ({ s with
          remote := s.remote.modify id fun session => session.setResources pool
          pc := .running sid todo }.finish [call.caller] status)
  | _ => none

def pushDone (s : State μ ρ Pool) : Option (State μ ρ Pool) :=
  match s.pc with
  | .running _ [] => some { s with pc := .idle }
  | _ => none

/-- A caller in `kFinish` deletes itself, whether by `Proceed` or by `Cancel`. -/
def finishEvent (s : State μ ρ Pool) (i : Nat) : Option (State μ ρ Pool) :=
  match s.pc, s.finishing[i]? with
  | .idle, some caller =>
    some { s with
      finishing := s.finishing.eraseIdx i
      finishEvents := s.finishEvents ++ [caller]
      deleted := s.deleted ++ [caller] }
  | _, _ => none

/-- The event of `SessionService::New`, which the completion-queue thread handles at once. -/
def newSession (services : Services μ ρ Pool) (s : State μ ρ Pool) : Option (State μ ρ Pool) :=
  match s.pc with
  | .idle => some { s with remote := (s.remote.resetSession services.pool).1 }
  | _ => none

def shutdownSession (s : State μ ρ Pool) (id : Nat) : Option (State μ ρ Pool) :=
  match s.pc with
  | .idle => some { s with remote := (s.remote.clearSession id).1 }
  | _ => none

def cancelWaiting (s : State μ ρ Pool) (i : Nat) : Option (State μ ρ Pool) :=
  match s.pc, s.waiting[i]? with
  | .idle, some (_, caller) =>
    if s.shutdown then
      some { s with
        waiting := s.waiting.eraseIdx i
        cancelEvents := s.cancelEvents ++ [caller]
        deleted := s.deleted ++ [caller] }
    else none
  | _, _ => none

/-- What one step does before the pointers it has dropped take effect. -/
def act (services : Services μ ρ Pool) (s : State μ ρ Pool) : Label ρ → Option (State μ ρ Pool)
  | .arrive i context request => s.arrive i context request
  | .compare => s.compare
  | .pushCommand => s.pushCommand
  | .handlerCurrent => s.handlerCurrent
  | .handlerPool => s.handlerPool services
  | .pushDone => s.pushDone
  | .finishEvent i => s.finishEvent i
  | .newSession => s.newSession services
  | .shutdownSession id => s.shutdownSession id
  | .enableSession => some { s with remote := s.remote.enableSession }
  | .disableSession => some { s with remote := s.remote.disableSession.1 }
  | .borrow => s.remote.current.map fun id => { s with borrowed := id :: s.borrowed }
  | .giveBack i => some { s with borrowed := s.borrowed.eraseIdx i }
  | .shutdownServer => some { s with shutdown := true }
  | .cancelWaiting i => s.cancelWaiting i

/-- Nothing happens after a crash. -/
def step (services : Services μ ρ Pool) (s : State μ ρ Pool) (l : Label ρ) :
    Option (State μ ρ Pool) :=
  match s.pc with
  | .crashed .. => none
  | _ => (s.act services l).map release

-- ---------------------------------------------------------------------------
-- What each step does
-- ---------------------------------------------------------------------------

variable {services : Services μ ρ Pool} {s t : State μ ρ Pool}

theorem arrive_cases {i : Nat} {context : Option RequestContext} {request : ρ}
    (hstep : s.arrive i context request = some t) :
    s.pc = .idle ∧ ∃ method caller, s.waiting[i]? = some (method, caller) ∧
      ((context = none ∧ t = { s with
          waiting := s.waiting.eraseIdx i ++ [(method, s.nextCaller)]
          nextCaller := s.nextCaller + 1
          arrived := s.arrived ++ [caller] }.finish [caller] .invalidContext) ∨
        ∃ c, context = some c ∧ t = { s with
          waiting := s.waiting.eraseIdx i ++ [(method, s.nextCaller)]
          nextCaller := s.nextCaller + 1
          arrived := s.arrived ++ [caller]
          pc := .compare ⟨caller, method, c, request⟩ }) := by
  unfold arrive at hstep
  split at hstep
  · rename_i method caller hpc hi
    refine ⟨hpc, method, caller, hi, ?_⟩
    cases context with
    | none => exact .inl ⟨rfl, (Option.some.inj hstep).symm⟩
    | some context => exact .inr ⟨context, rfl, (Option.some.inj hstep).symm⟩
  · contradiction

theorem compare_cases (hstep : s.compare = some t) :
    ∃ call, s.pc = .compare call ∧
      ((∃ session, s.remote.currentSession = some session ∧ session.id = call.context.session ∧
          t = { s with pc := .push call session.id }) ∨
        ((∀ session, s.remote.currentSession = some session → session.id ≠ call.context.session) ∧
          t = { s with pc := .idle }.finish [call.caller] .sessionExpired)) := by
  unfold compare at hstep
  split at hstep
  · rename_i call hpc
    refine ⟨call, hpc, ?_⟩
    split at hstep
    · rename_i session hcurrent
      split at hstep
      · rename_i hid
        refine .inr ⟨fun session' hsession' => ?_, (Option.some.inj hstep).symm⟩
        rwa [← Option.some.inj (hcurrent.symm.trans hsession')]
      · rename_i hid
        exact .inl ⟨session, hcurrent, Decidable.not_not.mp hid, (Option.some.inj hstep).symm⟩
    · rename_i hcurrent
      refine .inr ⟨fun session hsession => ?_, (Option.some.inj hstep).symm⟩
      exact absurd (hcurrent.symm.trans hsession) nofun
  · contradiction

theorem pushCommand_cases (hstep : s.pushCommand = some t) :
    ∃ call sid session, s.pc = .push call sid ∧ s.remote.sessions.lookup sid = some session ∧
      t = { s with
        remote := s.remote.modify sid fun session =>
          (session.pushCommand call.context.serial call.context.channel call).1
        pc := .running sid
          ((session.pushCommand call.context.serial call.context.channel call).2.map Prod.snd)
        received := s.received ++ [(call.caller, sid)] } := by
  unfold pushCommand at hstep
  split at hstep
  · rename_i call sid hpc
    obtain ⟨session, hlookup, rfl⟩ := Option.map_eq_some_iff.mp hstep
    exact ⟨call, sid, session, hpc, hlookup, rfl⟩
  · contradiction

theorem handlerCurrent_cases (hstep : s.handlerCurrent = some t) :
    ∃ sid call todo, s.pc = .running sid (call :: todo) ∧
      ((∃ id, s.remote.current = some id ∧ t = { s with
          pc := .handler sid call todo id, handled := s.handled ++ [call.caller] }) ∨
        (s.remote.current = none ∧ t = { s with
          pc := .crashed .noSession sid call todo, handled := s.handled ++ [call.caller] })) := by
  unfold handlerCurrent at hstep
  split at hstep
  · rename_i sid call todo hpc
    refine ⟨sid, call, todo, hpc, ?_⟩
    rw [Option.some.injEq] at hstep
    subst hstep
    cases hcurrent : s.remote.current with
    | some id => exact .inl ⟨id, rfl, rfl⟩
    | none => exact .inr ⟨rfl, rfl⟩
  · contradiction

theorem handlerPool_cases (hstep : s.handlerPool services = some t) :
    ∃ sid call todo id, s.pc = .handler sid call todo id ∧
      (((s.remote.sessions.lookup id).bind Session.pool = none ∧
          t = { s with pc := .crashed .noPool sid call todo }) ∨
        t = { s with pc := .crashed .handler sid call todo } ∨
        ∃ pool status, t = { s with
          remote := s.remote.modify id fun session => session.setResources pool
          pc := .running sid todo }.finish [call.caller] status) := by
  unfold handlerPool at hstep
  split at hstep
  · rename_i sid call todo id hpc
    refine ⟨sid, call, todo, id, hpc, ?_⟩
    split at hstep
    · rename_i hpool
      exact .inl ⟨hpool, (Option.some.inj hstep).symm⟩
    split at hstep
    · exact .inr (.inl (Option.some.inj hstep).symm)
    · exact .inr (.inr ⟨_, _, (Option.some.inj hstep).symm⟩)
  · contradiction

theorem pushDone_cases (hstep : s.pushDone = some t) :
    ∃ sid, s.pc = .running sid [] ∧ t = { s with pc := .idle } := by
  unfold pushDone at hstep
  split at hstep
  · rename_i sid hpc
    exact ⟨sid, hpc, (Option.some.inj hstep).symm⟩
  · contradiction

theorem finishEvent_cases {i : Nat} (hstep : s.finishEvent i = some t) :
    s.pc = .idle ∧ ∃ caller, s.finishing[i]? = some caller ∧ t = { s with
      finishing := s.finishing.eraseIdx i
      finishEvents := s.finishEvents ++ [caller]
      deleted := s.deleted ++ [caller] } := by
  unfold finishEvent at hstep
  split at hstep
  · rename_i caller hpc hi
    exact ⟨hpc, caller, hi, (Option.some.inj hstep).symm⟩
  · contradiction

theorem newSession_cases (hstep : s.newSession services = some t) :
    s.pc = .idle ∧ t = { s with remote := (s.remote.resetSession services.pool).1 } := by
  unfold newSession at hstep
  split at hstep
  · rename_i hpc
    exact ⟨hpc, (Option.some.inj hstep).symm⟩
  · contradiction

theorem shutdownSession_cases {id : Nat} (hstep : s.shutdownSession id = some t) :
    s.pc = .idle ∧ t = { s with remote := (s.remote.clearSession id).1 } := by
  unfold shutdownSession at hstep
  split at hstep
  · rename_i hpc
    exact ⟨hpc, (Option.some.inj hstep).symm⟩
  · contradiction

theorem cancelWaiting_cases {i : Nat} (hstep : s.cancelWaiting i = some t) :
    s.shutdown ∧ ∃ method caller, s.waiting[i]? = some (method, caller) ∧ t = { s with
      waiting := s.waiting.eraseIdx i
      cancelEvents := s.cancelEvents ++ [caller]
      deleted := s.deleted ++ [caller] } := by
  unfold cancelWaiting at hstep
  split at hstep
  · rename_i method caller hpc hi
    split at hstep
    · rename_i hshutdown
      exact ⟨hshutdown, method, caller, hi, (Option.some.inj hstep).symm⟩
    · contradiction
  · contradiction

theorem step_cases {l : Label ρ} (hstep : s.step services l = some t) :
    ∃ u, s.act services l = some u ∧ t = u.release := by
  unfold step at hstep
  split at hstep
  · contradiction
  · obtain ⟨u, hact, rfl⟩ := Option.map_eq_some_iff.mp hstep
    exact ⟨u, hact, rfl⟩

theorem step_eq (h : ∀ crash sid call todo, s.pc ≠ .crashed crash sid call todo) (l : Label ρ) :
    s.step services l = (s.act services l).map release := by
  unfold step
  split
  · rename_i crash sid call todo hpc
    exact absurd hpc (h crash sid call todo)
  · rfl

/-- A comparison always goes on, and so does a handler, if only to crash. -/
theorem compare_some {call : Call μ ρ} (hpc : s.pc = .compare call) : ∃ t, s.compare = some t := by
  rw [compare, hpc]
  dsimp only
  split
  · split
    · exact ⟨_, rfl⟩
    · exact ⟨_, rfl⟩
  · exact ⟨_, rfl⟩

theorem handlerPool_some (services : Services μ ρ Pool) {sid : Nat} {call : Call μ ρ}
    {todo : List (Call μ ρ)} {obtained : Nat} (hpc : s.pc = .handler sid call todo obtained) :
    ∃ t, s.handlerPool services = some t := by
  rw [handlerPool, hpc]
  dsimp only
  split
  · exact ⟨_, rfl⟩
  · split
    · exact ⟨_, rfl⟩
    · exact ⟨_, rfl⟩

end State

/-- At first one caller waits for each method. -/
def client {μ : Type u} {ρ : Type v} {Pool : Type w} (services : Services μ ρ Pool) :
    Machine (State μ ρ Pool) (Label ρ) where
  init := { waiting := services.methods.zipIdx, nextCaller := services.methods.length }
  step := State.step services

end ZenRemote.Client
