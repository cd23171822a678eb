import TitoOS.Kernel.Course
import TitoOS.Lib.Text
import TitoOS.Persistence

/-!
# Platform agents

`PlatformTurn`, `Outbound`, `PlatformAdapter`, `PlatformAgent` and
`AsyncPlatformAgent` (`platforms/base.py`). An adapter is code from outside: its
hooks are arbitrary functions of its own state `τ` (its class and attributes),
each of which may raise.

The own state of a platform agent is one summand of the own states of all
agents, so the kernels of this model hold platform agents next to others of any
kind.
-/

namespace TitoOS

/-- `{name!r}` for a name without quotes or escapes. -/
def quoted (name : String) : String := "'" ++ name ++ "'"

/-- `PlatformTurn`. -/
structure PlatformTurn where
  agent : String
  tick : Int
  messages : List Message := []
  seed : Value := .none
  deriving DecidableEq

namespace PlatformTurn

/-- `turn.sender`. -/
def sender (turn : PlatformTurn) : Option String := turn.messages.head?.map Message.sender

end PlatformTurn

/-- `Outbound`, whose constructor refuses one that is both broadcast and
addressed. `recipient` is the source's `to`. -/
structure Outbound where
  payload : Value := .none
  recipient : Option String := none
  metadata : Metadata := ∅
  broadcast : Bool := false
  exclusive : broadcast = true → recipient = none := by decide

/-! ## Adapters -/

/-- What a hook raises: a `PlatformError`, which passes as it is, or anything
else. -/
inductive HookError where
  | platform (cls text : String)
  | other (e : Exc)

/-- What `invoke` returns. -/
inductive Invoked (τ θ : Type) where
  | result (r : θ)
  /-- An awaitable, and what awaiting it comes to. -/
  | awaitable (resume : τ → τ × Except HookError θ)

/-- The default `ainvoke`: `invoke`, and await what it returns if need be. -/
def PlatformAdapter.ainvokeDefault {τ ρ θ : Type}
    (invoke : τ → ρ → PlatformTurn → τ × Except HookError (Invoked τ θ))
    (adapter : τ) (request : ρ) (turn : PlatformTurn) : τ × Except HookError θ :=
  match invoke adapter request turn with
  | (adapter, .error e) => (adapter, .error e)
  | (adapter, .ok (.result r)) => (adapter, .ok r)
  | (adapter, .ok (.awaitable resume)) => resume adapter

/-- The code of a family of adapters with own state `τ`, whose platforms take
requests `ρ` and give results `θ`. -/
structure PlatformAdapter (τ ρ θ : Type) where
  name : τ → String
  toPlatform : τ → PlatformTurn → τ × Except HookError ρ
  invoke : τ → ρ → PlatformTurn → τ × Except HookError (Invoked τ θ)
  ainvoke : τ → ρ → PlatformTurn → τ × Except HookError θ :=
    PlatformAdapter.ainvokeDefault invoke
  fromPlatform : τ → θ → PlatformTurn → τ × Except HookError (List Outbound)
  saveState : τ → Metadata
  loadState : τ → Metadata → Except Exc τ

namespace PlatformAdapter

variable {τ ρ θ : Type}

/-- `_error`. What is no `Exception` is not caught. -/
def error (adapters : PlatformAdapter τ ρ θ) (adapter : τ) (agent operation : String) :
    HookError → Exc
  | .platform cls text => .raised cls text
  | .other e =>
      if e.isException then
        .raised "PlatformError" ("platform " ++ quoted (adapters.name adapter)
          ++ " failed during " ++ operation ++ " for agent " ++ quoted agent ++ ": " ++ e.text)
      else e

end PlatformAdapter

/-! ## Agents -/

/-- The attributes of a `PlatformAgent`. The constructor refuses a `reply_to`
with `broadcast` and a `max_turns` below one. -/
structure PlatformAgent (τ : Type) where
  adapter : τ
  seed : Value := .none
  replyTo : Option String := none
  broadcast : Bool := false
  maxTurns : Option Int := none
  turns : Int := 0
  /-- `_seeded`. -/
  seeded : Bool
  /-- The agent is an `AsyncPlatformAgent`. -/
  async : Bool := false
  exclusive : ∀ name, replyTo = some name → name ≠ "" → broadcast = false
  maxTurns_pos : ∀ n, maxTurns = some n → 1 ≤ n

namespace PlatformAgent

variable {τ ρ θ σ : Type}

/-- `seed is None`. -/
def isNone : Value → Bool
  | .none => true
  | _ => false

/-- `_begin`: the turn to run, or none when there is nothing to do. -/
def beginTurn (s : PlatformAgent τ) (name : String) (tick : Int) (inbox : List Message) :
    Option PlatformTurn :=
  if inbox.isEmpty && s.seeded then none
  else some { agent := name, tick, messages := inbox, seed := if s.seeded then .none else s.seed }

/-! ### Dispatch -/

/-- A call with keyword arguments of a function whose first parameters are
given by position: Python refuses the first key that is one of theirs. -/
def bindKeywords (function : String) (params : List String) (metadata : Metadata) :
    Except Exc Unit :=
  match metadata.keys.find? params.contains with
  | some key =>
      .error
        (.raised "TypeError" (function ++ "() got multiple values for argument " ++ quoted key))
  | none => .ok ()

/-- `ctx.send(to, payload, **metadata)`, which calls `bus.post`. -/
def contextSend (recipient : String) (payload : Value) (metadata : Metadata)
    (rest : Except Exc Unit → StepProg σ) : StepProg σ :=
  match bindKeywords "Context.send" ["self", "to", "payload"] metadata with
  | .error e => rest (.error e)
  | .ok () =>
    match bindKeywords "MessageBus.post" ["self", "sender", "to", "payload"] metadata with
    | .error e => rest (.error e)
    | .ok () => .send recipient payload metadata rest

/-- `ctx.broadcast(payload, **metadata)`, which calls `bus.broadcast`, which
calls `bus.post`. -/
def contextBroadcast (payload : Value) (metadata : Metadata)
    (rest : Except Exc Unit → StepProg σ) : StepProg σ :=
  match bindKeywords "Context.broadcast" ["self", "payload"] metadata with
  | .error e => rest (.error e)
  | .ok () =>
    match bindKeywords "MessageBus.broadcast" ["self", "sender", "payload"] metadata with
    | .error e => rest (.error e)
    | .ok () =>
      match bindKeywords "MessageBus.post" ["self", "sender", "to", "payload"] metadata with
      | .error e => rest (.error e)
      | .ok () => .broadcast payload metadata (rest (.ok ()))

/-- What an exception does to a step that does not catch it. -/
def orRaise (rest : StepProg σ) : Except Exc Unit → StepProg σ
  | .ok () => rest
  | .error e => .raise e

/-- A name that counts as true. -/
def truthy (name : Option String) : Option String := name.filter fun n => decide (n ≠ "")

/-- `reply.to or self.reply_to or turn.sender`. -/
def destination (s : PlatformAgent τ) (reply : Outbound) (turn : PlatformTurn) : Option String :=
  truthy reply.recipient <|> truthy s.replyTo <|> truthy turn.sender

/-- The reply goes to everyone. -/
def broadcasts (s : PlatformAgent τ) (reply : Outbound) : Bool :=
  reply.broadcast || (reply.recipient.isNone && s.broadcast)

/-- The refusal of a reply without destination. -/
def noDestination (adapters : PlatformAdapter τ ρ θ) (s : PlatformAgent τ) (name : String) : Exc :=
  .raised "PlatformError" ("platform " ++ quoted (adapters.name s.adapter)
    ++ " produced a reply for agent " ++ quoted name
    ++ " with no destination: the turn had no sender, "
    ++ "so set reply_to=, broadcast=True, or address the Outbound")

/-- `_dispatch`. -/
def dispatch (adapters : PlatformAdapter τ ρ θ) (s : PlatformAgent τ) (name : String)
    (turn : PlatformTurn) (reply : Outbound) (rest : StepProg σ) : StepProg σ :=
  if s.broadcasts reply then contextBroadcast reply.payload reply.metadata (orRaise rest)
  else match s.destination reply turn with
    | none => .raise (s.noDestination adapters name)
    | some recipient => contextSend recipient reply.payload reply.metadata (orRaise rest)

/-! ### The step -/

/-- The end of `_finish`: the turn is complete. `inject` makes the attributes
the agent's own state. -/
def complete (inject : PlatformAgent τ → σ) (s : PlatformAgent τ) : StepProg σ :=
  let s' := { s with seeded := true, turns := s.turns + 1 }
  .store (inject s') <|
    if s.maxTurns.any fun n => decide (s'.turns ≥ n) then .exit .ret else .wait .ret

/-- `_finish`, once `from_platform` has returned. -/
def finish (inject : PlatformAgent τ → σ) (adapters : PlatformAdapter τ ρ θ) (s : PlatformAgent τ)
    (name : String) (turn : PlatformTurn) : List Outbound → StepProg σ
  | [] => s.complete inject
  | reply :: replies =>
    s.dispatch adapters name turn reply (finish inject adapters s name turn replies)

/-- The refusal of an awaitable by the synchronous `step`. -/
def returnedAwaitable (adapters : PlatformAdapter τ ρ θ) (adapter : τ) : Exc :=
  .raised "PlatformError" ("platform " ++ quoted (adapters.name adapter)
    ++ " returned an awaitable; set is_async = True on the adapter and run the kernel on "
    ++ "AsyncBackend")

/-- `invoke` or `ainvoke`, as the class of the agent has it, with its errors
normalized. -/
def runPlatform (adapters : PlatformAdapter τ ρ θ) (s : PlatformAgent τ) (adapter : τ)
    (name : String) (request : ρ) (turn : PlatformTurn) : τ × Except Exc θ :=
  if s.async then
    match adapters.ainvoke adapter request turn with
    | (adapter, .error e) => (adapter, .error (adapters.error adapter name "invoke" e))
    | (adapter, .ok r) => (adapter, .ok r)
  else
    match adapters.invoke adapter request turn with
    | (adapter, .error e) => (adapter, .error (adapters.error adapter name "invoke" e))
    | (adapter, .ok (.awaitable _)) => (adapter, .error (returnedAwaitable adapters adapter))
    | (adapter, .ok (.result r)) => (adapter, .ok r)

/-- The three hooks of a turn, in order: the state they leave the adapter in,
and the replies or what was raised. -/
def hooks (adapters : PlatformAdapter τ ρ θ) (s : PlatformAgent τ) (name : String)
    (turn : PlatformTurn) : τ × Except Exc (List Outbound) :=
  match adapters.toPlatform s.adapter turn with
  | (adapter, .error e) => (adapter, .error (adapters.error adapter name "to_platform" e))
  | (adapter, .ok request) =>
    match s.runPlatform adapters adapter name request turn with
    | (adapter, .error e) => (adapter, .error e)
    | (adapter, .ok r) =>
      match adapters.fromPlatform adapter r turn with
      | (adapter, .error e) => (adapter, .error (adapters.error adapter name "from_platform" e))
      | (adapter, .ok replies) => (adapter, .ok replies)

/-- The body of `step`. -/
def turnProg (inject : PlatformAgent τ → σ) (adapters : PlatformAdapter τ ρ θ)
    (s : PlatformAgent τ) (name : String) (tick : Int) (inbox : List Message) : StepProg σ :=
  match s.beginTurn name tick inbox with
  | none => .wait .ret
  | some turn =>
    let s' := { s with adapter := (s.hooks adapters name turn).1 }
    .store (inject s') <|
      match (s.hooks adapters name turn).2 with
      | .error e => .raise e
      | .ok replies => s'.finish inject adapters name turn replies

/-- `PlatformAgent.step`, or `AsyncPlatformAgent.step`, an `async def`. -/
def step (inject : PlatformAgent τ → σ) (adapters : PlatformAdapter τ ρ θ) (s : PlatformAgent τ)
    (name : String) (tick : Int) (inbox : List Message) : StepProg σ :=
  if s.async then .coroutine (s.turnProg inject adapters name tick inbox)
  else s.turnProg inject adapters name tick inbox

/-! ### Persistence -/

/-- `PlatformAgent.save_state`. -/
def saveState (adapters : PlatformAdapter τ ρ θ) (s : PlatformAgent τ) : Metadata :=
  Dict.ofList [("turns", .int s.turns), ("seeded", .bool s.seeded),
    ("platform", .dict (adapters.saveState s.adapter).entries)]

/-- `bool(value)`. -/
def toBool : Value → Bool
  | .none => false
  | .bool b => b
  | .int n => n != 0
  | .str text => text != ""
  | .list items => !items.isEmpty
  | .dict items => !items.isEmpty
  | .object _ => true

/-- `int(value)`. -/
def toInt : Value → Except Exc Int
  | .int n => .ok n
  | .bool b => .ok b.toInt
  | .str text => match Text.int? text with
    | some n => .ok n
    | none =>
      .error (.raised "ValueError" ("invalid literal for int() with base 10: " ++ quoted text))
  | _ => .error (.raised "TypeError" "int() argument must be a string or a number")

/-- `dict(value or {})`. -/
def toDict : Value → Except Exc Metadata
  | .dict items => .ok (Dict.ofList items)
  | v => if toBool v then .error (.raised "TypeError" "object is not iterable") else .ok ∅

/-- `PlatformAgent.load_state`. -/
def loadState (adapters : PlatformAdapter τ ρ θ) (s : PlatformAgent τ) (data : Metadata) :
    Except Exc (PlatformAgent τ) := do
  let turns ← toInt ((data.get? "turns").getD (.int 0))
  let seeded := toBool ((data.get? "seeded").getD (.bool (isNone s.seed)))
  let adapter ← adapters.loadState s.adapter (← toDict ((data.get? "platform").getD .none))
  pure { s with turns, seeded, adapter }

end PlatformAgent

/-! ## Kernels with platform agents -/

variable {τ ρ θ κ : Type}

/-- The own states of the agents of a kernel: platform agents, and others with
own states `κ`. -/
abbrev Hosted (τ κ : Type) := PlatformAgent τ ⊕ κ

/-- The code of a kernel's agents, where `others` says what the agents do that
are no platform agents. `PlatformAgent` inherits an `on_restart` that does
nothing. -/
def AgentCode.hosting (others : AgentCode (Hosted τ κ)) (adapters : PlatformAdapter τ ρ θ) :
    AgentCode (Hosted τ κ) where
  step s a tick inbox := match s with
    | .inl p => p.step .inl adapters a.name tick inbox
    | .inr _ => others.step s a tick inbox
  onRestart s a := match s with
    | .inl _ => (s, none)
    | .inr _ => others.onRestart s a
  isAsync s := match s with
    | .inl p => p.async
    | .inr _ => others.isAsync s
  kind s := match s with
    | .inl p => if p.async then "AsyncPlatformAgent" else "PlatformAgent"
    | .inr _ => others.kind s
  saveState s := match s with
    | .inl p => p.saveState adapters
    | .inr _ => others.saveState s
  loadState s data := match s with
    | .inl p => (p.loadState adapters data).map .inl
    | .inr _ => others.loadState s data

end TitoOS
