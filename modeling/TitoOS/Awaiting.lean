import TitoOS.Reporting

/-!
# Awaitables on the synchronous backends

`SerialBackend` and `ThreadBackend` refuse an agent that `_is_async_agent` calls
asynchronous (`backends.py`), and drop what the step of any other agent returns
(`Kernel._run_agent`). The question is put to the callable, for a
`FunctionAgent` to the wrapped one; whether a step returns an awaitable shows
only when it is called. A tick of a synchronous backend goes as `AsyncBackend`
would run it exactly when no step returns an awaitable
(`TickState.exec_eq_iff`).
-/

namespace TitoOS

variable {σ : Type}

/-! ## Callables -/

/-- A callable of one argument, the context: what `inspect.iscoroutinefunction`
says of it, and what a call does. -/
structure Callable (σ : Type) where
  iscoroutinefunction : Bool
  call : Agent σ → Int → List Message → StepProg σ

namespace Callable

/-- An `async def`, whose call makes the coroutine that runs the body. Bound
methods and `functools.partial` objects of one are looked through. -/
def asyncDef (body : Agent σ → Int → List Message → StepProg σ) : Callable σ where
  iscoroutinefunction := true
  call a tick inbox := .coroutine (body a tick inbox)

/-- A `def` or a `lambda`. -/
def function (body : Agent σ → Int → List Message → StepProg σ) : Callable σ where
  iscoroutinefunction := false
  call := body

/-- An object whose class has `__call__`, which is not looked at. -/
def object (dunderCall : Callable σ) : Callable σ where
  iscoroutinefunction := false
  call := dunderCall.call

end Callable

/-- How an agent comes by its step. -/
inductive Definition (σ : Type) where
  /-- A subclass of `Agent` with its method. -/
  | subclass (step : Callable σ)
  /-- `FunctionAgent`. -/
  | functionAgent (fn : Callable σ)

namespace Definition

/-- `agent.step`: that of a `FunctionAgent` is a plain method around `_fn`. -/
def step : Definition σ → Callable σ
  | subclass step => step
  | functionAgent fn => .function fn.call

/-- The callable that `_is_async_agent` inspects. -/
def target : Definition σ → Callable σ
  | subclass step => step
  | functionAgent fn => fn

end Definition

/-- An agent as `_is_async_agent` finds it, with the memo of an earlier answer.
The definition of an agent does not change, so the memo is right. -/
structure Checked (σ : Type) where
  definition : Definition σ
  cached : Option Bool
  memo : ∀ b, cached = some b → b = definition.target.iscoroutinefunction

namespace Checked

/-- `_is_async_agent`. -/
def isAsyncAgent (agent : Checked σ) : Bool × Checked σ :=
  match agent.cached with
  | some b => (b, agent)
  | none => (agent.definition.target.iscoroutinefunction, {
      definition := agent.definition
      cached := some agent.definition.target.iscoroutinefunction
      memo := fun _ h => (Option.some.inj h).symm })

/-- The memo changes no answer. -/
@[simp] theorem isAsyncAgent_fst (agent : Checked σ) :
    agent.isAsyncAgent.1 = agent.definition.target.iscoroutinefunction := by
  unfold isAsyncAgent
  split
  · exact agent.memo _ ‹_›
  · rfl

/-- An agent that has not been checked yet. -/
def new (definition : Definition σ) : Checked σ where
  definition
  cached := none
  memo := nofun

end Checked

/-- The code of agents that are defined by `agents`. -/
def AgentCode.defining (code : AgentCode σ) (agents : σ → Checked σ) : AgentCode σ :=
  { code with
    step := fun s => (agents s).definition.step.call
    isAsync := fun s => (agents s).isAsyncAgent.1 }

/-! ## Awaitables -/

namespace TickState

/-- The agent whose step returns an awaitable in the next action of the `i`-th
job. -/
def returnedAwaitable (i : Nat) (t : TickState σ) : List Nat :=
  match t.jobs[i]? with
  | some job => match job.phase with
    | .running _ _ (.coroutine _) => [job.ref]
    | _ => []
  | none => []

/-- The agents whose steps return an awaitable along a schedule. -/
def awaitables (code : AgentCode σ) (async : Bool) (sched : List Nat) (t : TickState σ) :
    List Nat :=
  Schedule.emitted (advance code async) returnedAwaitable sched t

/-- Awaiting or not makes a difference to awaitables only. -/
theorem advance_eq_of_no_awaitable {code : AgentCode σ} {i : Nat} {t : TickState σ}
    (h : t.returnedAwaitable i = []) : t.advance code false i = t.advance code true i := by
  unfold returnedAwaitable at h
  unfold advance
  cases hi : t.jobs[i]? with
  | none => rfl
  | some job =>
    simp only [hi] at h
    have hmove : t.kernel.moveJob code false job = t.kernel.moveJob code true job := by
      unfold Kernel.moveJob
      cases hp : job.phase with
      | running calls inbox rest =>
        cases rest with
        | coroutine body => simp [hp] at h
        | _ => rfl
      | _ => rfl
    simp only [hmove]

/-- A job that is not moved stays as it is. -/
theorem jobs_exec_of_not_mem {code : AgentCode σ} {async : Bool} {i : Nat} {sched : List Nat}
    (h : i ∉ sched) (t : TickState σ) : (t.exec code async sched).jobs[i]? = t.jobs[i]? := by
  induction sched generalizing t with
  | nil => rfl
  | cons j rest ih =>
    obtain ⟨hij, hrest⟩ := List.ne_and_not_mem_of_not_mem_cons h
    show (TickState.exec code async rest (t.advance code async j)).jobs[i]? = _
    rw [ih hrest, getElem?_advance_ne hij]

/-- A backend does not move a job whose step is over. -/
theorem not_mem_of_legal {code : AgentCode σ} {b : Backend} {i : Nat} {job : Job σ}
    (hsettled : job.phase.isSettled = true) {sched : List Nat} {t : TickState σ}
    (hjob : t.jobs[i]? = some job) (hlegal : b.Legal code sched t) : i ∉ sched := by
  induction sched generalizing t with
  | nil => exact List.not_mem_nil
  | cons j rest ih =>
    obtain ⟨hmay, hrest⟩ := hlegal
    have hij : i ≠ j := by
      rintro rfl
      unfold Backend.mayMove at hmay
      rw [hjob] at hmay
      cases hp : job.phase with
      | pending | running | escaped => rw [hp] at hsettled; cases hsettled
      | returned | failed => cases b <;> simp [hp, Phase.isPending, Phase.isRunning] at hmay
    have hkept : (t.advance code b.isAsync j).jobs[i]? = some job := by
      rw [getElem?_advance_ne hij, hjob]
    exact List.not_mem_cons_of_ne_of_not_mem hij (ih hkept hrest)

/-- **A tick of a synchronous backend goes as `AsyncBackend` would run it exactly
when no step returns an awaitable.** -/
theorem exec_eq_iff {code : AgentCode σ} {b : Backend} (hb : b.isAsync = false)
    {sched : List Nat} {t : TickState σ} (hlegal : b.Legal code sched t) :
    t.exec code false sched = t.exec code true sched ↔ t.awaitables code false sched = [] := by
  induction sched generalizing t with
  | nil => exact iff_of_true rfl rfl
  | cons i rest ih =>
    obtain ⟨-, hrest⟩ := hlegal
    rw [hb] at hrest
    have hlog : t.awaitables code false (i :: rest)
        = t.returnedAwaitable i ++ (t.advance code false i).awaitables code false rest :=
      Schedule.emitted_cons ..
    cases hnone : t.returnedAwaitable i with
    | nil =>
      rw [hlog, hnone, List.nil_append, ← ih hrest]
      show (t.advance code false i).exec code false rest
        = (t.advance code true i).exec code true rest ↔ _
      rw [advance_eq_of_no_awaitable hnone]
    | cons ref refs =>
      rw [hlog, hnone]
      refine iff_of_false (fun heq => ?_) (by simp)
      -- the job has returned without being awaited, or is inside its coroutine
      unfold returnedAwaitable at hnone
      cases hi : t.jobs[i]? with
      | none => simp [hi] at hnone
      | some job =>
        simp only [hi] at hnone
        split at hnone
        · rename_i calls inbox body hp
          have hsync : (t.advance code false i).jobs[i]?
              = some { job with phase := .returned calls inbox } := by
            rw [getElem?_advance hi, if_pos rfl]
            simp [Kernel.moveJob, hp, Kernel.act]
          have hasync : (t.advance code true i).jobs[i]?
              = some { job with phase := .running calls inbox body } := by
            rw [getElem?_advance hi, if_pos rfl]
            simp [Kernel.moveJob, hp, Kernel.act]
          have hno : i ∉ rest := not_mem_of_legal rfl hsync hrest
          have hjobs : ((t.advance code false i).exec code false rest).jobs[i]?
              = ((t.advance code true i).exec code true rest).jobs[i]? :=
            congrArg (fun u : TickState σ => u.jobs[i]?) heq
          rw [jobs_exec_of_not_mem hno, jobs_exec_of_not_mem hno, hsync, hasync] at hjobs
          simp at hjobs
        · cases hnone

end TickState

/-! ## Ticks -/

namespace Kernel

/-- An agent of the next tick is one that `_is_async_agent` recognises: its
step, or the callable it wraps, is itself a coroutine function. -/
def HasAsyncAgent (agents : σ → Checked σ) (k : Kernel σ) : Prop :=
  ∃ e ∈ k.scheduled, ∃ s, e.1.2.body = .user s
    ∧ (agents s).definition.target.iscoroutinefunction = true

/-- The tick drops no asynchronous work: it raises a `TypeError` before it runs
any agent, or it runs the steps as `AsyncBackend` would and reports nobody as
having run whose awaitable nobody awaited. -/
def DropsNothing (code : AgentCode σ) (b : Backend) (loop : Bool) (sched : List Nat)
    (k : Kernel σ) : Prop :=
  (∃ e, k.stepWith code b loop sched = (k.beginTick.kernel, .error e) ∧ e.cls = "TypeError"
    ∧ k.refused code b loop = some e ∧ k.beginTick.called code b.isAsync sched = [])
  ∨ (k.tickWith code b loop sched = k.beginTick.exec code true sched
    ∧ ∀ report, (k.stepWith code b loop sched).2 = .ok report →
      ∀ job ∈ k.beginTick.jobs, job.ref ∈ k.beginTick.awaitables code b.isAsync sched →
        job.name ∉ report.ran)

/-- A synchronous backend refuses exactly the ticks with an agent that is
recognised as asynchronous. -/
theorem refused_isSome_iff (code : AgentCode σ) {agents : σ → Checked σ} {b : Backend}
    (hb : b.isAsync = false) (loop : Bool) (k : Kernel σ) :
    (k.refused (code.defining agents) b loop).isSome = true ↔ k.HasAsyncAgent agents := by
  rw [refused, Backend.refuses, hb, if_neg (by simp), Option.isSome_map, List.find?_isSome]
  constructor
  · rintro ⟨a, hmem, ha⟩
    obtain ⟨e, he, rfl⟩ := List.mem_map.mp hmem
    unfold AgentCode.isAsyncAgent at ha
    split at ha
    · rename_i s hs
      exact ⟨e, he, s, hs, (Checked.isAsyncAgent_fst _).symm.trans ha⟩
    · cases ha
  · rintro ⟨e, he, s, hs, hasync⟩
    refine ⟨e.1.2, List.mem_map_of_mem he, ?_⟩
    simp only [AgentCode.isAsyncAgent, hs, AgentCode.defining, Checked.isAsyncAgent_fst, hasync]

/-- The refusal of a synchronous backend is a `TypeError`. -/
theorem cls_of_refused {code : AgentCode σ} {b : Backend} (hb : b.isAsync = false) {loop : Bool}
    {k : Kernel σ} {e : Exc} (h : k.refused code b loop = some e) : e.cls = "TypeError" := by
  rw [refused, Backend.refuses, hb, if_neg (by simp), Option.map_eq_some_iff] at h
  obtain ⟨a, -, rfl⟩ := h
  rfl

end Kernel

/-- Ways to write an agent that exits in its first step. -/
inductive Style where
  | plain
  | asyncDef
  /-- `lambda ctx: quit(ctx)`, where `quit` is an `async def`. -/
  | lambda
  /-- An object with an `async def __call__`. -/
  | object
  deriving DecidableEq

/-- `ctx.exit()`. -/
def quit (_ : Agent Style) (_ : Int) (_ : List Message) : StepProg Style := .exit .ret

/-- The `FunctionAgent` around a callable of each style. -/
def Style.checked : Style → Checked Style
  | plain => .new (.functionAgent (.function quit))
  | asyncDef => .new (.functionAgent (.asyncDef quit))
  | lambda => .new (.functionAgent (.function (Callable.asyncDef quit).call))
  | object => .new (.functionAgent (.object (.asyncDef quit)))

/-- The code of the agents of each style. -/
def styled : AgentCode Style :=
  AgentCode.defining {
    step := fun _ _ _ _ => .ret
    onRestart := fun s _ => (s, none)
    isAsync := fun _ => false
    kind := fun _ => "FunctionAgent"
    saveState := fun _ => ∅
    loadState := fun s _ => .ok s } Style.checked

/-- A new agent of a style. -/
def Style.agent (name : String) (name_ne : name ≠ "") (style : Style) : FreshAgent Style where
  name
  name_ne
  body := .user style
  fresh_state := rfl
  fresh_restarts := FreshAgent.default_restarts

def plainOps : List (Op Style) := [.register (Style.plain.agent "plain" (by decide)) none]

theorem plainOps_accepted : (Kernel.replay styled plainOps {}).isSome = true := by decide

def plainTeam : Kernel Style := ((Kernel.replay styled plainOps {}).get plainOps_accepted).2

def covertOps : List (Op Style) :=
  [.register (Style.lambda.agent "lambda" (by decide)) none,
   .register (Style.object.agent "object" (by decide)) none]

theorem covertOps_accepted : (Kernel.replay styled covertOps {}).isSome = true := by decide

def covert : Kernel Style := ((Kernel.replay styled covertOps {}).get covertOps_accepted).2

end TitoOS
