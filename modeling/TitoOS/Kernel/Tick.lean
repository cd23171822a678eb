import TitoOS.Kernel.Basic
import TitoOS.Lib.Schedule

/-!
# A tick in flight

What happens between the draining of the mailboxes and the supervision pass:
the scheduled agents execute their steps, one Context call at a time, in an
order the backend decides (`backends.py`, `Kernel._run_agent`).

`TickState.advance i` is the next atomic action of the `i`-th job: it starts
its step, makes the step's next call, or ends it. The bus and kernel locks make
each call atomic, so the executions of a tick are the schedules of `advance`.
`Backend.mayMove` says which of them a backend produces.
-/

namespace TitoOS

variable {σ : Type}

/-- How far the step of a scheduled agent has got, with the calls it has made,
the current contents of the list `ctx.inbox` and what it does next. -/
inductive Phase (σ : Type) where
  | pending
  | running (calls : List Call) (inbox : List Message) (rest : StepProg σ)
  /-- `_run_agent` returned `True`. -/
  | returned (calls : List Call) (inbox : List Message)
  /-- `_run_agent` recorded the failure and returned `False`. -/
  | failed (calls : List Call) (inbox : List Message)
  /-- A `BaseException` left `_run_agent`. -/
  | escaped (e : Exc) (calls : List Call) (inbox : List Message)

namespace Phase

/-- `_run_agent` returned. -/
def isSettled : Phase σ → Bool
  | returned .. | failed .. => true
  | _ => false

def isPending : Phase σ → Bool
  | pending => true
  | _ => false

def isRunning : Phase σ → Bool
  | running .. => true
  | _ => false

def isReturned : Phase σ → Bool
  | returned .. => true
  | _ => false

def isFailed : Phase σ → Bool
  | failed .. => true
  | _ => false

/-- The exception that left `_run_agent`. -/
def escaped? : Phase σ → Option Exc
  | escaped e .. => some e
  | _ => none

/-- The calls made so far. -/
def calls : Phase σ → List Call
  | pending => []
  | running calls .. | returned calls _ | failed calls _ | escaped _ calls _ => calls

end Phase

/-- A scheduled agent: its object, its name, the inbox drained for it and how
far its step has got. -/
structure Job (σ : Type) where
  ref : Nat
  name : String
  inbox : List Message
  phase : Phase σ := .pending

/-- The contents of the job's inbox list as supervision finds it: the list that
was drained, which the step was given and may have changed. -/
def Job.handedBack (job : Job σ) : List Message :=
  match job.phase with
  | .pending => job.inbox
  | .running _ inbox _ | .returned _ inbox | .failed _ inbox | .escaped _ _ inbox => inbox

/-- The kernel in the middle of a tick. -/
structure TickState (σ : Type) where
  kernel : Kernel σ
  jobs : List (Job σ)

namespace Kernel

/-- The next action of a step in progress. A step that returns an awaitable is
awaited by `_run_agent_async` (`async`) and returns at once for `_run_agent`. -/
def act (k : Kernel σ) (async : Bool) (ref : Nat) (name : String) (calls : List Call)
    (inbox : List Message) : StepProg σ → Kernel σ × Phase σ
  | .ret => (k.settle ref, .returned calls inbox)
  | .raise e =>
      if e.isException then (k.recordFailure ref name e, .failed calls inbox)
      else (k, .escaped e calls inbox)
  | .coroutine body =>
      if async then (k, .running calls inbox body)
      else (k.settle ref, .returned calls inbox)
  | .store s rest =>
      (k.modifyAgent ref fun a => { a with body := .user s }, .running calls inbox rest)
  | .inbox messages rest => (k, .running calls messages rest)
  | .send recipient payload metadata rest =>
      let (k', answer) := k.ctxSend name recipient payload metadata
      (k', .running (calls ++ [.send recipient]) inbox (rest answer))
  | .broadcast payload metadata rest =>
      (k.ctxBroadcast name payload metadata, .running (calls ++ [.broadcast]) inbox rest)
  | .spawn child rest =>
      let (k', answer) := k.ctxRegister child (some name)
      (k', .running (calls ++ [.spawn child.name]) inbox (rest answer))
  | .wait rest => (k.ctxWait ref, .running (calls ++ [.wait]) inbox rest)
  | .exit rest => (k.ctxExit ref, .running (calls ++ [.exit]) inbox rest)
  | .register agent parent rest =>
      let (k', answer) := k.ctxRegister agent parent
      (k', .running (calls ++ [.register agent.name]) inbox (rest answer))
  | .unregister n rest =>
      (k.popAgent n, .running (calls ++ [.unregister n]) inbox (.dropMailbox n rest))
  | .dropMailbox n rest => (k.dropMailbox n, .running calls inbox rest)

/-- The start of `_run_agent`: mark the agent RUNNING and call its step. -/
def start (code : AgentCode σ) (k : Kernel σ) (job : Job σ) : Kernel σ × Phase σ :=
  match k.objects[job.ref]? with
  | some a =>
    (k.setState job.ref .running,
      .running [] job.inbox (code.stepOf { a with state := .running } k.tick job.inbox))
  | none => (k, .pending)

/-- The next action of a job. -/
def moveJob (code : AgentCode σ) (k : Kernel σ) (async : Bool) (job : Job σ) :
    Kernel σ × Phase σ :=
  match job.phase with
  | .pending => k.start code job
  | .running calls inbox rest => k.act async job.ref job.name calls inbox rest
  | phase => (k, phase)

/-- The message the next action of a step hands to the bus. -/
def outgoing (name : String) : StepProg σ → Option Message
  | .send recipient payload metadata _ => some { sender := name, recipient, payload, metadata }
  | .broadcast payload metadata _ =>
      some { sender := name, recipient := BROADCAST, payload, metadata }
  | _ => none

/-- What the next action of a job appends to mailboxes. -/
def moveDeliveries (k : Kernel σ) (job : Job σ) : List Delivery :=
  match job.phase with
  | .running _ _ rest => ((outgoing job.name rest).map k.bus.deliveries).getD []
  | _ => []

end Kernel

/-- What the next action of a job appends to the error log. -/
def Job.moveFailures (job : Job σ) : List (String × Exc) :=
  match job.phase with
  | .running _ _ (.raise e) => if e.isException then [(job.name, e)] else []
  | _ => []

namespace TickState

/-- The next atomic action of the `i`-th job. -/
def advance (code : AgentCode σ) (async : Bool) (i : Nat) (t : TickState σ) : TickState σ :=
  match t.jobs[i]? with
  | none => t
  | some job =>
    let (kernel, phase) := t.kernel.moveJob code async job
    { kernel, jobs := t.jobs.set i { job with phase } }

/-- What the next atomic action of the `i`-th job appends to mailboxes. -/
def deliveries (i : Nat) (t : TickState σ) : List Delivery :=
  match t.jobs[i]? with
  | none => []
  | some job => t.kernel.moveDeliveries job

/-- Execute a schedule. -/
def exec (code : AgentCode σ) (async : Bool) (sched : List Nat) (t : TickState σ) : TickState σ :=
  Schedule.exec (advance code async) sched t

/-- What a schedule appends to mailboxes, in acceptance order. -/
def log (code : AgentCode σ) (async : Bool) (sched : List Nat) (t : TickState σ) :
    List Delivery :=
  Schedule.emitted (advance code async) deliveries sched t

/-- Every job's `_run_agent` has returned. -/
def isComplete (t : TickState σ) : Bool := t.jobs.all fun job => job.phase.isSettled

theorem isComplete_iff {t : TickState σ} :
    t.isComplete = true ↔ ∀ job ∈ t.jobs, job.phase.isSettled = true :=
  List.all_eq_true

end TickState

/-! ## Backends -/

/-- `ExecutionBackend`. `ThreadBackend.__init__` refuses fewer than one worker. -/
inductive Backend where
  | serial
  | thread (maxWorkers : Nat) (pos : 1 ≤ maxWorkers)
  | async

namespace Backend

/-- `type(backend).__name__`. -/
def className : Backend → String
  | serial => "SerialBackend"
  | thread .. => "ThreadBackend"
  | async => "AsyncBackend"

/-- `supports_async_agents`. -/
def isAsync : Backend → Bool
  | async => true
  | _ => false

/-- The refusals `run_tick` makes before it runs any agent: `_reject_async` of
the synchronous backends, and `AsyncBackend` called inside a running event loop
(`loop`). -/
def refuses (b : Backend) (code : AgentCode σ) (loop : Bool) (agents : List (Agent σ)) :
    Option Exc :=
  if b.isAsync then
    if agents.isEmpty then none else if loop then some .runningLoop else none
  else (agents.find? code.isAsyncAgent).map fun a => .asyncAgent a.name b.className

/-- The exception that leaves `run_tick`, if one does: the synchronous backends
look at the jobs in scheduling order and re-raise once all jobs before the
escaped one have returned; `asyncio.gather` re-raises at once. -/
def raises (b : Backend) (t : TickState σ) : Option Exc :=
  if b.isAsync then t.jobs.findSome? fun job => job.phase.escaped?
  else (t.jobs.find? fun job => !job.phase.isSettled).bind fun job => job.phase.escaped?

/-- One job after the other. -/
def inOrder (jobs : List (Job σ)) (i : Nat) : Bool :=
  (jobs.take i).all fun job => job.phase.isSettled

/-- The jobs before the `i`-th have all started. -/
def startedBefore (jobs : List (Job σ)) (i : Nat) : Bool :=
  (jobs.take i).all fun job => !job.phase.isPending

/-- The `i`-th job may make its next action. `SerialBackend` and a small tick of
`ThreadBackend` run jobs one after the other; the thread pool starts them in
order on at most `max_workers` workers and interleaves them freely; the event
loop starts them in order. (On the loop a job really moves only up to its next
`await`; nothing here depends on that.) -/
def mayMove (b : Backend) (jobs : List (Job σ)) (i : Nat) : Bool :=
  match jobs[i]? with
  | none => false
  | some job =>
    match b with
    | serial => inOrder jobs i && (job.phase.isPending || job.phase.isRunning)
    | thread maxWorkers _ =>
      if jobs.length < 2 then inOrder jobs i && (job.phase.isPending || job.phase.isRunning)
      else job.phase.isRunning
        || (job.phase.isPending && startedBefore jobs i
            && decide ((jobs.filter fun j => j.phase.isRunning).length < maxWorkers))
    | async => job.phase.isRunning || (job.phase.isPending && startedBefore jobs i)

/-- Every move of the schedule is one the backend makes. -/
def Legal (b : Backend) (code : AgentCode σ) : List Nat → TickState σ → Prop
  | [], _ => True
  | i :: rest, t => b.mayMove t.jobs i = true ∧ b.Legal code rest (t.advance code b.isAsync i)

instance (b : Backend) (code : AgentCode σ) : (sched : List Nat) → (t : TickState σ) →
    Decidable (b.Legal code sched t)
  | [], _ => isTrue trivial
  | i :: rest, t =>
    haveI := instDecidableLegal b code rest (t.advance code b.isAsync i)
    inferInstanceAs (Decidable (_ ∧ _))

end Backend

end TitoOS
