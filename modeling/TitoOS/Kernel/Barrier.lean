import TitoOS.Kernel.Tick

/-!
# The barrier

The part of `Kernel.step` after the backend has run the tick: restarts, then
escalations, then the reclamation of mailboxes, each in registration order.
Every pass is a recursion over the scheduled jobs; an exception leaves the
passes after it undone, and the kernel as it was when it was raised.
-/

namespace TitoOS

variable {σ : Type}

/-- `TickReport`. -/
structure TickReport where
  tick : Int
  ran : List String
  failed : List String
  waiting : List String := []
  restarted : List String := []
  deriving DecidableEq

namespace Kernel

/-- `_supervise`'s decision: the policy and the budget allow a restart. -/
def mayRestart (a : Agent σ) : Bool :=
  a.restartPolicy = .onFailure && !decide (a.restarts ≥ a.maxRestarts)

/-- `_supervise`. -/
def supervise (code : AgentCode σ) (k : Kernel σ) (job : Job σ) : Kernel σ × Except Exc Bool :=
  match k.objects[job.ref]? with
  | none => (k, .ok false)
  | some a =>
    if mayRestart a then
      let a' := { a with restarts := a.restarts + 1 }
      match code.restartOf a' with
      | (body, some e) => (k.modifyAgent job.ref fun _ => { a' with body }, .error e)
      | (body, none) =>
        ({ k.modifyAgent job.ref fun _ => { a' with body, state := .ready } with
            bus := k.bus.requeue a.name job.handedBack }, .ok true)
    else (k, .ok false)

/-- The supervision pass over the casualties, collecting the names of the
restarted agents. -/
def superviseAll (code : AgentCode σ) : List (Job σ) → Kernel σ →
    Kernel σ × Except Exc (List String)
  | [], k => (k, .ok [])
  | job :: rest, k =>
    match k.supervise code job with
    | (k', .error e) => (k', .error e)
    | (k', .ok restarted) =>
      match superviseAll code rest k' with
      | (k'', .error e) => (k'', .error e)
      | (k'', .ok names) => (k'', .ok (if restarted then job.name :: names else names))

/-- The message `_escalate` posts for the agent object at `ref`, if any: it
needs a parent that is registered and alive. -/
def notice (k : Kernel σ) (ref : Nat) : Option Message := do
  let a ← k.objects[ref]?
  let parent ← a.parent
  let p ← k.agent? parent
  if p.isAlive then
    some {
      sender := a.name
      recipient := parent
      payload := CHILD_FAILED
      metadata := Dict.ofList [("child", .str a.name), ("restarts", .int a.restarts)] }
  else none

/-- `_escalate`. -/
def escalate (k : Kernel σ) (ref : Nat) : Except Exc (Kernel σ) :=
  match k.notice ref with
  | none => .ok k
  | some m => (k.bus.send m).map fun bus => { k with bus }

/-- The agent of a casualty is still FAILED after the supervision pass. -/
def hasFailed (k : Kernel σ) (ref : Nat) : Bool :=
  match k.objects[ref]? with
  | some a => a.state = .failed
  | none => false

/-- The escalation pass over the casualties. -/
def escalateAll : List (Job σ) → Kernel σ → Kernel σ × Option Exc
  | [], k => (k, none)
  | job :: rest, k =>
    if k.hasFailed job.ref then
      match k.escalate job.ref with
      | .error e => (k, some e)
      | .ok k' => escalateAll rest k'
    else escalateAll rest k

/-- What the escalation pass appends to mailboxes. -/
def escalationLog : List (Job σ) → Kernel σ → List Delivery
  | [], _ => []
  | job :: rest, k =>
    if k.hasFailed job.ref then
      let appended := ((k.notice job.ref).map k.bus.deliveries).getD []
      match k.escalate job.ref with
      | .error _ => appended
      | .ok k' => appended ++ escalationLog rest k'
    else escalationLog rest k

/-- `_unregister_finished_mailbox`. -/
def reclaim (k : Kernel σ) (job : Job σ) : Kernel σ :=
  match k.objects[job.ref]? with
  | some a => if a.state.isFinished then { k with bus := k.bus.unregister a.name } else k
  | none => k

end Kernel

namespace TickState

/-- The jobs whose step failed, in scheduling order. -/
def casualties (t : TickState σ) : List (Job σ) := t.jobs.filter fun job => job.phase.isFailed

/-- The report of a completed tick. -/
def report (t : TickState σ) (waiting restarted : List String) : TickReport where
  tick := t.kernel.tick
  ran := (t.jobs.filter fun job => job.phase.isReturned).map Job.name
  failed := t.casualties.map Job.name
  waiting := waiting
  restarted := restarted

/-- The end of `Kernel.step`, once the backend has returned. -/
def barrier (code : AgentCode σ) (waiting : List String) (t : TickState σ) :
    Kernel σ × Except Exc TickReport :=
  match t.kernel.superviseAll code t.casualties with
  | (k, .error e) => (k, .error e)
  | (k, .ok restarted) =>
    match k.escalateAll t.casualties with
    | (k, some e) => (k, .error e)
    | (k, none) => (t.jobs.foldl Kernel.reclaim k, .ok (t.report waiting restarted))

/-- What the barrier appends to mailboxes. -/
def barrierLog (code : AgentCode σ) (t : TickState σ) : List Delivery :=
  match t.kernel.superviseAll code t.casualties with
  | (_, .error _) => []
  | (k, .ok _) => k.escalationLog t.casualties

end TickState

end TitoOS
