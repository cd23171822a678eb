import TitoOS.Agent
import TitoOS.Bus

/-!
# The kernel's tables

`Kernel` (`kernel.py`): the registry `_agents`, the bus, the tick counter and
the error log, with the operations that do not involve a tick.

Agents are objects with identity: the tick loop keeps working on the objects
it scheduled even when the registry has meanwhile lost or replaced one. So
`objects` is the heap of agent objects the kernel has seen, addressed by
position, and `agents` maps each registered name to an address.
-/

namespace TitoOS

/-- `StopReason`. -/
inductive StopReason where
  | finished
  | quiescent
  | maxTicks
  deriving DecidableEq

/-- `CHILD_FAILED`. -/
def CHILD_FAILED : Value := .str "titoos.child_failed"

/-- The state of a `Kernel`. The backend is fixed at construction and is a
parameter of the operations that use it. -/
structure Kernel (σ : Type) where
  bus : MessageBus := {}
  agents : Dict String Nat := ∅
  objects : List (Agent σ) := []
  tick : Int := 0
  errors : List (String × Exc) := []
  stopReason : Option StopReason := none
  deriving DecidableEq

variable {σ : Type}

namespace Kernel

/-- The registered agent named `name`. -/
def agent? (k : Kernel σ) (name : String) : Option (Agent σ) :=
  (k.agents.get? name).bind fun ref => k.objects[ref]?

/-- The property `agents`: the registered agents, in registration order. -/
def roster (k : Kernel σ) : List (Agent σ) :=
  k.agents.values.filterMap fun ref => k.objects[ref]?

/-- Update the object at `ref`. -/
def modifyAgent (k : Kernel σ) (ref : Nat) (f : Agent σ → Agent σ) : Kernel σ :=
  { k with objects := k.objects.modify ref f }

/-- `agent.state = s`. -/
def setState (k : Kernel σ) (ref : Nat) (s : AgentState) : Kernel σ :=
  k.modifyAgent ref fun a => { a with state := s }

/-- `Kernel.register` for an agent object in any state. -/
def registerObject (k : Kernel σ) (agent : Agent σ) : Except Exc (Kernel σ) :=
  if k.agents.contains agent.name then .error (.alreadyRegistered agent.name)
  else
    .ok { k with
      objects := k.objects ++ [agent]
      agents := k.agents.set agent.name k.objects.length
      bus := k.bus.register agent.name }

/-- `Kernel.register` for a new agent. -/
def register (k : Kernel σ) (agent : FreshAgent σ) (parent : Option String) :
    Except Exc (Kernel σ) :=
  k.registerObject (agent.linked parent)

/-- The first half of `Kernel.unregister`, under the kernel lock. -/
def popAgent (k : Kernel σ) (name : String) : Kernel σ :=
  { k with agents := k.agents.erase name }

/-- The second half of `Kernel.unregister`, under the bus lock. -/
def dropMailbox (k : Kernel σ) (name : String) : Kernel σ :=
  { k with bus := k.bus.unregister name }

/-- `Kernel.unregister`. -/
def unregister (k : Kernel σ) (name : String) : Kernel σ :=
  (k.popAgent name).dropMailbox name

/-- `kernel.bus.post`, from outside any agent. -/
def busPost (k : Kernel σ) (sender recipient : String) (payload : Value) (metadata : Metadata) :
    Except Exc (Kernel σ) :=
  (k.bus.post sender recipient payload metadata).map fun bus => { k with bus }

/-! ## Liveness -/

/-- `_live_snapshot`: the live registered agents with their addresses, in
registration order. -/
def liveSnapshot (k : Kernel σ) : List (Nat × Agent σ) :=
  k.agents.values.filterMap fun ref =>
    match k.objects[ref]? with
    | some a => if a.isAlive then some (ref, a) else none
    | none => none

/-- `_is_quiescent`. -/
def isQuiescentWith (k : Kernel σ) (live : List (Nat × Agent σ)) : Bool :=
  if live.isEmpty then false
  else if live.any fun e => e.2.state ≠ .waiting then false
  else !k.bus.anyPending (live.map fun e => e.2.name)

/-- `is_quiescent`. -/
def isQuiescent (k : Kernel σ) : Bool := k.isQuiescentWith k.liveSnapshot

/-! ## The methods of `Context`

Each runs on behalf of the agent object at `ref`, whose name is `name`. -/

/-- `Context.send`. -/
def ctxSend (k : Kernel σ) (name recipient : String) (payload : Value) (metadata : Metadata) :
    Kernel σ × Except Exc Unit :=
  match k.bus.post name recipient payload metadata with
  | .ok bus => ({ k with bus }, .ok ())
  | .error e => (k, .error e)

/-- `Context.broadcast`. A broadcast is never refused. -/
def ctxBroadcast (k : Kernel σ) (name : String) (payload : Value) (metadata : Metadata) :
    Kernel σ :=
  (k.ctxSend name BROADCAST payload metadata).1

/-- `Context.spawn` and `ctx.kernel.register`. -/
def ctxRegister (k : Kernel σ) (agent : FreshAgent σ) (parent : Option String) :
    Kernel σ × Except Exc Unit :=
  match k.register agent parent with
  | .ok k' => (k', .ok ())
  | .error e => (k, .error e)

/-- `Context.wait`. -/
def ctxWait (k : Kernel σ) (ref : Nat) : Kernel σ := k.setState ref .waiting

/-- `Context.exit`. -/
def ctxExit (k : Kernel σ) (ref : Nat) : Kernel σ := k.setState ref .done

/-- `_record_failure`. -/
def recordFailure (k : Kernel σ) (ref : Nat) (name : String) (e : Exc) : Kernel σ :=
  { k.setState ref .failed with errors := k.errors ++ [(name, e)] }

/-- The end of `_run_agent` after a normal return. -/
def settle (k : Kernel σ) (ref : Nat) : Kernel σ :=
  k.modifyAgent ref fun a => if a.state = .running then { a with state := .ready } else a

end Kernel

end TitoOS
