import TitoOS.Kernel.Barrier

/-!
# Steps and runs

`Kernel.step` and `Kernel.run` (`kernel.py`). A step is deterministic once the
order of the atomic actions is fixed, so `stepWith` takes that order as an
argument, and `Allows` says which orders a backend produces for a given kernel.
`step` and `run` are the sequential executions of `SerialBackend`, where
`runAgent` executes a whole step at once.
-/

namespace TitoOS

variable {σ : Type}

namespace Kernel

/-! ## The start of a tick -/

/-- The agents of a tick with the inboxes drained for them. -/
def drained (k : Kernel σ) : List ((Nat × Agent σ) × List Message) :=
  k.liveSnapshot.zip (k.bus.receiveMany (k.liveSnapshot.map fun e => e.2.name)).1

/-- A waiting agent without mail is skipped. -/
def isSkipped (e : (Nat × Agent σ) × List Message) : Bool :=
  e.1.2.state = .waiting && e.2.isEmpty

/-- The names of the agents skipped in the next tick. -/
def waitingNames (k : Kernel σ) : List String :=
  (k.drained.filter isSkipped).map fun e => e.1.2.name

/-- The agents scheduled in the next tick, with their addresses. -/
def scheduled (k : Kernel σ) : List ((Nat × Agent σ) × List Message) :=
  k.drained.filter fun e => !isSkipped e

/-- The kernel once the tick is counted and the mailboxes are drained. -/
def drainedKernel (k : Kernel σ) : Kernel σ :=
  { k with
    tick := k.tick + 1
    bus := (k.bus.receiveMany (k.liveSnapshot.map fun e => e.2.name)).2 }

/-- The tick as the kernel hands it to the backend. -/
def beginTick (k : Kernel σ) : TickState σ where
  kernel := k.drainedKernel
  jobs := k.scheduled.map fun e => { ref := e.1.1, name := e.1.2.name, inbox := e.2 }

/-! ## A step under a given order of actions -/

/-- The refusal of the backend to run the next tick. -/
def refused (k : Kernel σ) (code : AgentCode σ) (b : Backend) (loop : Bool) : Option Exc :=
  b.refuses code loop (k.scheduled.map fun e => e.1.2)

/-- The tick at the point where `run_tick` returns or raises, when the atomic
actions happen in the order `sched`. -/
def tickWith (code : AgentCode σ) (b : Backend) (loop : Bool) (sched : List Nat) (k : Kernel σ) :
    TickState σ :=
  match k.refused code b loop with
  | some _ => k.beginTick
  | none => k.beginTick.exec code b.isAsync sched

theorem tickWith_of_accepted {code : AgentCode σ} {b : Backend} {loop : Bool} {k : Kernel σ}
    (h : k.refused code b loop = none) (sched : List Nat) :
    k.tickWith code b loop sched = k.beginTick.exec code b.isAsync sched := by
  rw [tickWith, h]

/-- `Kernel.step` when the atomic actions happen in the order `sched`: the
kernel afterwards, and the report or what was raised. `loop` says that the call
comes from inside a running event loop. The steps that an aborted tick leaves to
the pool or the event loop (`Backend.leavesOver`) are not followed any further. -/
def stepWith (code : AgentCode σ) (b : Backend) (loop : Bool) (sched : List Nat) (k : Kernel σ) :
    Kernel σ × Except Exc TickReport :=
  let t := k.tickWith code b loop sched
  match k.refused code b loop with
  | some e => (t.kernel, .error e)
  | none =>
    match b.raises t with
    | some e => (t.kernel, .error e)
    | none => t.barrier code k.waitingNames

/-- What a step appends to mailboxes, in acceptance order. -/
def stepLog (code : AgentCode σ) (b : Backend) (loop : Bool) (sched : List Nat) (k : Kernel σ) :
    List Delivery :=
  match k.refused code b loop with
  | some _ => []
  | none =>
    let t := k.beginTick.exec code b.isAsync sched
    k.beginTick.log code b.isAsync sched
      ++ match b.raises t with
        | some _ => []
        | none => t.barrierLog code

/-- The backend can produce the order `sched`: none if it refuses the tick;
otherwise its own moves, up to the point where it returns or raises. -/
def Allows (code : AgentCode σ) (b : Backend) (loop : Bool) (sched : List Nat) (k : Kernel σ) :
    Prop :=
  match k.refused code b loop with
  | some _ => sched = []
  | none =>
    b.Legal code sched k.beginTick
      ∧ ((k.beginTick.exec code b.isAsync sched).isComplete = true
          ∨ (b.raises (k.beginTick.exec code b.isAsync sched)).isSome = true)

instance (code : AgentCode σ) (b : Backend) (loop : Bool) (sched : List Nat) (k : Kernel σ) :
    Decidable (k.Allows code b loop sched) :=
  match h : k.refused code b loop with
  | some _ => decidable_of_iff (sched = []) (by simp [Allows, h])
  | none => decidable_of_iff
      (b.Legal code sched k.beginTick
        ∧ ((k.beginTick.exec code b.isAsync sched).isComplete = true
          ∨ (b.raises (k.beginTick.exec code b.isAsync sched)).isSome = true))
      (by simp [Allows, h])

/-! ### How a step ends -/

section

variable {code : AgentCode σ} {b : Backend} {loop : Bool} {sched : List Nat} {k k' : Kernel σ}
  {e : Exc}

/-- The backend refuses the tick. -/
theorem stepWith_of_refused (h : k.refused code b loop = some e) (sched : List Nat) :
    k.stepWith code b loop sched = (k.beginTick.kernel, .error e) := by
  simp only [stepWith, tickWith, h]

/-- A `BaseException` leaves the tick. -/
theorem stepWith_of_raises (h : k.refused code b loop = none)
    (hraises : b.raises (k.beginTick.exec code b.isAsync sched) = some e) :
    k.stepWith code b loop sched
      = ((k.beginTick.exec code b.isAsync sched).kernel, .error e) := by
  simp only [stepWith, tickWith, h, hraises]

/-- The tick comes to its barrier. -/
theorem stepWith_of_accepted (h : k.refused code b loop = none)
    (hraises : b.raises (k.beginTick.exec code b.isAsync sched) = none) :
    k.stepWith code b loop sched
      = (k.beginTick.exec code b.isAsync sched).barrier code k.waitingNames := by
  simp only [stepWith, tickWith, h, hraises]

theorem stepLog_of_accepted (h : k.refused code b loop = none)
    (hraises : b.raises (k.beginTick.exec code b.isAsync sched) = none) :
    k.stepLog code b loop sched = k.beginTick.log code b.isAsync sched
      ++ (k.beginTick.exec code b.isAsync sched).barrierLog code := by
  simp only [stepLog, h, hraises]

/-- Where a step leaves the kernel: somewhere in its tick, or behind the barrier. -/
theorem stepWith_fst_cases (code : AgentCode σ) (b : Backend) (loop : Bool) (sched : List Nat)
    (k : Kernel σ) :
    (∃ sched', (k.stepWith code b loop sched).1
      = (k.beginTick.exec code b.isAsync sched').kernel)
    ∨ (k.stepWith code b loop sched).1
      = ((k.beginTick.exec code b.isAsync sched).barrier code k.waitingNames).1 := by
  cases hrefused : k.refused code b loop with
  | some e =>
    rw [stepWith_of_refused hrefused]
    exact .inl ⟨[], rfl⟩
  | none =>
    cases hraises : b.raises (k.beginTick.exec code b.isAsync sched) with
    | some e =>
      rw [stepWith_of_raises hrefused hraises]
      exact .inl ⟨sched, rfl⟩
    | none =>
      rw [stepWith_of_accepted hrefused hraises]
      exact .inr rfl

/-- A step that returns has come to its barrier. -/
theorem barrier_of_stepWith {report : TickReport}
    (hstep : k.stepWith code b loop sched = (k', .ok report)) :
    k.refused code b loop = none
      ∧ b.raises (k.beginTick.exec code b.isAsync sched) = none
      ∧ (k.beginTick.exec code b.isAsync sched).barrier code k.waitingNames
          = (k', .ok report) := by
  cases hrefused : k.refused code b loop with
  | some e =>
    rw [stepWith_of_refused hrefused] at hstep
    cases hstep
  | none =>
    cases hraises : b.raises (k.beginTick.exec code b.isAsync sched) with
    | some e =>
      rw [stepWith_of_raises hrefused hraises] at hstep
      cases hstep
    | none => exact ⟨rfl, rfl, stepWith_of_accepted hrefused hraises ▸ hstep⟩

/-- A tick that comes to its barrier has run every job to its end. -/
theorem isComplete_of_allows (hallow : k.Allows code b loop sched)
    (h : k.refused code b loop = none)
    (hraises : b.raises (k.beginTick.exec code b.isAsync sched) = none) :
    (k.beginTick.exec code b.isAsync sched).isComplete = true := by
  simp only [Allows, h, hraises, Option.isSome_none, Bool.false_eq_true, or_false] at hallow
  exact hallow.2

end

/-! ## Sequential execution -/

/-- The rest of a step, executed to its end on the calling thread. -/
def runStep (ref : Nat) (name : String) : StepProg σ → List Call → List Message → Kernel σ →
    Kernel σ × Phase σ
  | .ret, calls, inbox, k => (k.settle ref, .returned calls inbox)
  | .raise e, calls, inbox, k =>
      if e.isException then (k.recordFailure ref name e, .failed calls inbox)
      else (k, .escaped e calls inbox)
  | .coroutine _, calls, inbox, k => (k.settle ref, .returned calls inbox)
  | .store s rest, calls, inbox, k =>
      runStep ref name rest calls inbox (k.modifyAgent ref fun a => { a with body := .user s })
  | .inbox messages rest, calls, _, k => runStep ref name rest calls messages k
  | .send recipient payload metadata rest, calls, inbox, k =>
      let (k', answer) := k.ctxSend name recipient payload metadata
      runStep ref name (rest answer) (calls ++ [.send recipient]) inbox k'
  | .broadcast payload metadata rest, calls, inbox, k =>
      runStep ref name rest (calls ++ [.broadcast]) inbox (k.ctxBroadcast name payload metadata)
  | .spawn child rest, calls, inbox, k =>
      let (k', answer) := k.ctxRegister child (some name)
      runStep ref name (rest answer) (calls ++ [.spawn child.name]) inbox k'
  | .wait rest, calls, inbox, k =>
      runStep ref name rest (calls ++ [.wait]) inbox (k.ctxWait ref)
  | .exit rest, calls, inbox, k =>
      runStep ref name rest (calls ++ [.exit]) inbox (k.ctxExit ref)
  | .register agent parent rest, calls, inbox, k =>
      let (k', answer) := k.ctxRegister agent parent
      runStep ref name (rest answer) (calls ++ [.register agent.name]) inbox k'
  | .unregister n rest, calls, inbox, k =>
      runStep ref name rest (calls ++ [.unregister n]) inbox (k.unregister n)
  | .dropMailbox n rest, calls, inbox, k => runStep ref name rest calls inbox (k.dropMailbox n)

/-- `_run_agent`. -/
def runAgent (code : AgentCode σ) (k : Kernel σ) (job : Job σ) : Kernel σ × Phase σ :=
  match k.start code job with
  | (k', .running calls inbox rest) => k'.runStep job.ref job.name rest calls inbox
  | other => other

/-- `SerialBackend.run_tick` after `_reject_async`: run the jobs one after the
other, up to one that lets a `BaseException` escape. -/
def runTick (code : AgentCode σ) : List (Job σ) → Kernel σ → Kernel σ × List (Job σ)
  | [], k => (k, [])
  | job :: rest, k =>
    let (k', phase) := k.runAgent code job
    if phase.isSettled then
      let (k'', jobs) := runTick code rest k'
      (k'', { job with phase } :: jobs)
    else (k', { job with phase } :: rest)

/-- `Kernel.step` on `SerialBackend`. -/
def step (code : AgentCode σ) (k : Kernel σ) : Kernel σ × Except Exc TickReport :=
  match k.refused code .serial false with
  | some e => (k.beginTick.kernel, .error e)
  | none =>
    let (kernel, jobs) := k.beginTick.kernel.runTick code k.beginTick.jobs
    let t : TickState σ := { kernel, jobs }
    match Backend.serial.raises t with
    | some e => (t.kernel, .error e)
    | none => t.barrier code k.waitingNames

/-- The end of a run whose budget is used up. -/
def finishRun (k : Kernel σ) : Kernel σ :=
  if k.liveSnapshot.isEmpty then { k with stopReason := some .finished }
  else if k.isQuiescentWith k.liveSnapshot then { k with stopReason := some .quiescent }
  else k

/-- The loop of `Kernel.run` with a budget of `n` ticks. -/
def runLoop (code : AgentCode σ) : Nat → Kernel σ → Kernel σ × Except Exc (List TickReport)
  | 0, k => (k.finishRun, .ok [])
  | n + 1, k =>
    if k.liveSnapshot.isEmpty then ({ k with stopReason := some .finished }, .ok [])
    else if k.isQuiescentWith k.liveSnapshot then
      ({ k with stopReason := some .quiescent }, .ok [])
    else
      match k.step code with
      | (k', .error e) => (k', .error e)
      | (k', .ok report) =>
        match runLoop code n k' with
        | (k'', .error e) => (k'', .error e)
        | (k'', .ok reports) => (k'', .ok (report :: reports))

/-- `Kernel.run`. -/
def run (code : AgentCode σ) (maxTicks : Int) (k : Kernel σ) :
    Kernel σ × Except Exc (List TickReport) :=
  if maxTicks < 0 then (k, .error .negativeMaxTicks)
  else runLoop code maxTicks.toNat { k with stopReason := some .maxTicks }

end Kernel

/-! ## Acts on a kernel -/

/-- What is done to a kernel from outside. -/
inductive Act (σ : Type) where
  | register (agent : FreshAgent σ) (parent : Option String)
  | unregister (name : String)
  | post (sender recipient : String) (payload : Value) (metadata : Metadata)
  | step (backend : Backend) (loop : Bool) (sched : List Nat)

/-- The act takes `k` to `k'`. A step may also raise. -/
def Kernel.Performs (code : AgentCode σ) (k : Kernel σ) : Act σ → Kernel σ → Prop
  | .register a p, k' => k.register a p = .ok k'
  | .unregister x, k' => k' = k.unregister x
  | .post s r p m, k' => k.busPost s r p m = .ok k'
  | .step b loop sched, k' =>
      k.Allows code b loop sched ∧ k' = (k.stepWith code b loop sched).1

end TitoOS
