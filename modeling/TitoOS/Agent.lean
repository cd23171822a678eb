import TitoOS.Message

/-!
# Agents

The lifecycle part of `Agent` (`agent.py`) and the code an agent brings along.

Agent code is modelled by what it does to the kernel: a step is a `StepProg`,
the tree of the calls it makes, in order, each continued by what the call
answered. `AgentCode` maps an agent's own state (an arbitrary type `σ`, its
Python attributes together with its class) to such a tree, so one `AgentCode`
describes a whole family of agent classes.
-/

namespace TitoOS

/-- `RestartPolicy`. -/
inductive RestartPolicy where
  | never
  | onFailure
  deriving DecidableEq, Inhabited

/-- `AgentState`. -/
inductive AgentState where
  | ready
  | running
  | waiting
  | done
  | failed
  deriving DecidableEq, Inhabited

namespace AgentState

/-- `AgentState.value`. -/
def value : AgentState → String
  | ready => "ready"
  | running => "running"
  | waiting => "waiting"
  | done => "done"
  | failed => "failed"

/-- READY, RUNNING or WAITING. -/
def isAlive : AgentState → Bool
  | ready | running | waiting => true
  | done | failed => false

/-- `state in _FINISHED`. -/
def isFinished (s : AgentState) : Bool := !s.isAlive

end AgentState

/-- What an agent is made of: user code with its own state, or the placeholder
`FinishedAgent` (`persistence.py`) that restore builds. -/
inductive Body (σ : Type) where
  | user (s : σ)
  | finished (kind : String) (saved : Metadata)
  deriving DecidableEq

/-- An agent object. `Agent.__init__` refuses the empty name. -/
structure Agent (σ : Type) where
  name : String
  name_ne : name ≠ ""
  body : Body σ
  restartPolicy : RestartPolicy := .never
  maxRestarts : Int := 3
  state : AgentState := .ready
  parent : Option String := none
  restarts : Int := 0
  deriving DecidableEq

/-- `is_alive`. -/
def Agent.isAlive {σ : Type} (a : Agent σ) : Bool := a.state.isAlive

/-- An agent object as its constructor leaves it: READY and never restarted. -/
structure FreshAgent (σ : Type) extends Agent σ where
  fresh_state : state = .ready
  fresh_restarts : restarts = 0

/-- The default of `restarts`. -/
theorem FreshAgent.default_restarts : (0 : Int) = 0 := rfl

/-- The agent object once registered with `parent`: an absent parent leaves the
attribute as it is. -/
def FreshAgent.linked {σ : Type} (agent : FreshAgent σ) (parent : Option String) : Agent σ :=
  match parent with
  | some p => { agent.toAgent with parent := some p }
  | none => agent.toAgent

/-! ## Steps -/

/-- The body of one `step()`.

`store` is an assignment to the agent's own attributes and `inbox` one to the
list `ctx.inbox`; both are invisible to other agents. `send`, `broadcast`,
`spawn`, `wait` and `exit` are the methods of `Context`; the continuation of a
call that can raise receives the exception. `register` and `unregister` reach
through `ctx.kernel`; `Kernel.unregister` takes the kernel lock and the bus
lock one after the other, and `dropMailbox` is its second half. `coroutine`
returns an awaitable that runs `body` when awaited. -/
inductive StepProg (σ : Type) where
  | ret
  | raise (e : Exc)
  | coroutine (body : StepProg σ)
  | store (s : σ) (k : StepProg σ)
  | inbox (messages : List Message) (k : StepProg σ)
  | send (recipient : String) (payload : Value) (metadata : Metadata)
      (k : Except Exc Unit → StepProg σ)
  | broadcast (payload : Value) (metadata : Metadata) (k : StepProg σ)
  | spawn (child : FreshAgent σ) (k : Except Exc Unit → StepProg σ)
  | wait (k : StepProg σ)
  | exit (k : StepProg σ)
  | register (agent : FreshAgent σ) (parent : Option String)
      (k : Except Exc Unit → StepProg σ)
  | unregister (name : String) (k : StepProg σ)
  | dropMailbox (name : String) (k : StepProg σ)

/-- The calls a step makes, as a step records them. -/
inductive Call where
  | send (recipient : String)
  | broadcast
  | spawn (name : String)
  | wait
  | exit
  | register (name : String)
  | unregister (name : String)
  deriving DecidableEq

/-- The code of a family of agents with own state `σ`. -/
structure AgentCode (σ : Type) where
  /-- `step`: own state, agent object, tick and inbox to what the step does. -/
  step : σ → Agent σ → Int → List Message → StepProg σ
  /-- `on_restart`: the own state it leaves behind, and what it raises. -/
  onRestart : σ → Agent σ → σ × Option Exc
  /-- `inspect.iscoroutinefunction` of the step. -/
  isAsync : σ → Bool
  /-- `type(agent).__name__`. -/
  kind : σ → String
  /-- `save_state`. -/
  saveState : σ → Metadata
  /-- `load_state`. -/
  loadState : σ → Metadata → Except Exc σ

namespace AgentCode

variable {σ : Type} (code : AgentCode σ)

/-- `agent.step(ctx)`. -/
def stepOf (a : Agent σ) (tick : Int) (inbox : List Message) : StepProg σ :=
  match a.body with
  | .user s => code.step s a tick inbox
  | .finished .. => .raise (.finishedAgent a.name)

/-- `agent.on_restart()`. -/
def restartOf (a : Agent σ) : Body σ × Option Exc :=
  match a.body with
  | .user s => ((code.onRestart s a).1 |> .user, (code.onRestart s a).2)
  | b => (b, none)

/-- `ExecutionBackend._is_async_agent`. -/
def isAsyncAgent (a : Agent σ) : Bool :=
  match a.body with
  | .user s => code.isAsync s
  | .finished .. => false

/-- The `kind` a snapshot records. -/
def kindOf (a : Agent σ) : String :=
  match a.body with
  | .user s => code.kind s
  | .finished kind _ => kind

/-- `agent.save_state()`. -/
def saveOf (a : Agent σ) : Metadata :=
  match a.body with
  | .user s => code.saveState s
  | .finished _ saved => saved

end AgentCode

/-! ## Classes of steps -/

namespace StepProg

variable {σ : Type}

/-- What a call of a step can answer: if it raises, then an `Exception`. -/
def Answers (x : Except Exc Unit) : Prop := ∀ e, x = .error e → e.isException = true

/-- Every node of the tree satisfies `P`, whatever the calls answer. -/
def Every (P : StepProg σ → Prop) : StepProg σ → Prop
  | .ret => P .ret
  | .raise e => P (.raise e)
  | .coroutine body => P (.coroutine body) ∧ body.Every P
  | .store s k => P (.store s k) ∧ k.Every P
  | .inbox ms k => P (.inbox ms k) ∧ k.Every P
  | .send r p m k => P (.send r p m k) ∧ ∀ x, Answers x → (k x).Every P
  | .broadcast p m k => P (.broadcast p m k) ∧ k.Every P
  | .spawn c k => P (.spawn c k) ∧ ∀ x, Answers x → (k x).Every P
  | .wait k => P (.wait k) ∧ k.Every P
  | .exit k => P (.exit k) ∧ k.Every P
  | .register a p k => P (.register a p k) ∧ ∀ x, Answers x → (k x).Every P
  | .unregister n k => P (.unregister n k) ∧ k.Every P
  | .dropMailbox n k => P (.dropMailbox n k) ∧ k.Every P

/-- The node is a method of `Context`, an assignment to the agent's own state,
a return or a raise. -/
def isContextCall : StepProg σ → Prop
  | .inbox .. | .register .. | .unregister .. | .dropMailbox .. => False
  | _ => True

/-- The step uses `Context`'s `send`, `broadcast`, `spawn`, `wait` and `exit`,
returns or raises, and leaves `ctx.inbox` alone. -/
abbrev ContextOnly (p : StepProg σ) : Prop := p.Every isContextCall

/-- What the step raises is an `Exception`. -/
def raisesException : StepProg σ → Prop
  | .raise e => e.isException = true
  | _ => True

/-- The step raises nothing but what the kernel catches. -/
abbrev Catchable (p : StepProg σ) : Prop := p.Every raisesException

end StepProg

end TitoOS
