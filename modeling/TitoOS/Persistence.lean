import TitoOS.Kernel.Step

/-!
# Persistence

`AgentRecord`, `Snapshot` and `FinishedAgent` (`persistence.py`) with
`Kernel.snapshot` and `Kernel.restore` (`kernel.py`). A snapshot holds plain
data only: what an agent is made of comes back through the factories and
`load_state`.
-/

namespace TitoOS

variable {σ : Type}

/-- `AgentRecord`. -/
structure AgentRecord where
  name : String
  kind : String
  state : String
  parent : Option String := none
  restarts : Int := 0
  data : Metadata := ∅
  deriving DecidableEq

/-- `SNAPSHOT_VERSION`. -/
def SNAPSHOT_VERSION : Int := 1

/-- `Snapshot`. -/
structure Snapshot where
  tick : Int
  agents : List AgentRecord
  mailboxes : Dict String (List Message) := ∅
  version : Int := SNAPSHOT_VERSION
  deriving DecidableEq

namespace AgentState

/-- `AgentState(value)`. -/
def ofValue? : String → Option AgentState
  | "ready" => some .ready
  | "running" => some .running
  | "waiting" => some .waiting
  | "done" => some .done
  | "failed" => some .failed
  | _ => none

@[simp] theorem ofValue?_value (s : AgentState) : ofValue? s.value = some s := by
  cases s <;> rfl

end AgentState

/-- A factory builds a bare agent for a name. -/
abbrev AgentFactory (σ : Type) := String → Except Exc (Agent σ)

/-- `agent.load_state(data)`. -/
def AgentCode.loadOf (code : AgentCode σ) (a : Agent σ) (data : Metadata) :
    Except Exc (Body σ) :=
  match a.body with
  | .user s => (code.loadState s data).map .user
  | .finished kind _ => .ok (.finished kind data)

namespace Kernel

/-! ## Saving -/

/-- The names of the registered agents that are RUNNING. -/
def runningNames (k : Kernel σ) : List String :=
  k.agents.values.filterMap fun ref =>
    match k.objects[ref]? with
    | some a => if a.state = .running then some a.name else none
    | none => none

/-- The record of one agent. -/
def record (code : AgentCode σ) (a : Agent σ) : AgentRecord where
  name := a.name
  kind := code.kindOf a
  state := a.state.value
  parent := a.parent
  restarts := a.restarts
  data := code.saveOf a

/-- `Kernel.snapshot`. -/
def snapshot (code : AgentCode σ) (k : Kernel σ) : Except Exc Snapshot :=
  if !k.runningNames.isEmpty then .error (.snapshotWhileRunning (sorted k.runningNames))
  else
    .ok {
      tick := k.tick
      agents := k.roster.map (record code)
      mailboxes := k.bus.dump.filter fun _ messages => !messages.isEmpty }

/-! ## Restoring -/

/-- `FinishedAgent(name, kind)`. -/
def finishedAgent (name : String) (kind : String) : Except Exc (Agent σ) :=
  if h : name = "" then .error .emptyName
  else .ok { name, name_ne := h, body := .finished kind ∅ }

/-- The agent `restore` builds for a record: by the factory of its kind, or a
placeholder. -/
def buildAgent (factories : Dict String (AgentFactory σ)) (r : AgentRecord) :
    Except Exc (Agent σ) :=
  match factories.get? r.kind with
  | none => finishedAgent r.name r.kind
  | some factory => factory r.name

/-- What `restore` does for one record. -/
def restoreAgent (code : AgentCode σ) (factories : Dict String (AgentFactory σ)) (k : Kernel σ)
    (r : AgentRecord) : Except Exc (Kernel σ) := do
  let agent ← buildAgent factories r
  if agent.name ≠ r.name then
    .error (.renamedAgent r.kind agent.name r.name)
  else
    let agent := { agent with parent := r.parent, restarts := r.restarts }
    let body ← code.loadOf agent r.data
    let k' ← k.registerObject { agent with body }
    match AgentState.ofValue? r.state with
    | none => .error (.invalidState r.state)
    | some s => .ok (k'.setState k.objects.length s)

/-- The kinds of the records that are still alive. -/
def liveKinds (s : Snapshot) : List String :=
  (s.agents.filter fun r => !((AgentState.ofValue? r.state).any AgentState.isFinished)).map
    AgentRecord.kind

/-- A mailbox for a live agent, none for a finished one without mail. -/
def reopenFor (k : Kernel σ) (a : Agent σ) : Kernel σ :=
  if a.isAlive then { k with bus := k.bus.register a.name }
  else if k.bus.pending a.name = 0 then { k with bus := k.bus.unregister a.name } else k

/-- The end of `restore`. -/
def reopen (k : Kernel σ) : Kernel σ := k.roster.foldl reopenFor k

/-- `Kernel.restore`. -/
def restore (code : AgentCode σ) (factories : Dict String (AgentFactory σ)) (s : Snapshot) :
    Except Exc (Kernel σ) := do
  match s.agents.find? fun r => (AgentState.ofValue? r.state).isNone with
  | some r => .error (.invalidState r.state)
  | none =>
    let missing := (sorted (liveKinds s).dedup).filter fun kind => !factories.contains kind
    if !missing.isEmpty then .error (.noFactory missing)
    else
      let k ← s.agents.foldlM (restoreAgent code factories) { ({} : Kernel σ) with tick := s.tick }
      .ok (reopen { k with bus := k.bus.load s.mailboxes })

end Kernel

end TitoOS
