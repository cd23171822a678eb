import TitoOS.Encoding
import TitoOS.Kernel.Loop
import TitoOS.Lib.Deque

/-!
# The dashboard

`KernelGUI` (`gui/server.py`) without its HTTP side. An operation holds the GUI
lock while it uses the kernel, so each is one step of the model. What the GUI
takes from the standard library is a parameter (`PythonLib`).
-/

namespace TitoOS

variable {σ : Type}

/-- `MAX_RUN_TICKS`. -/
def MAX_RUN_TICKS : Int := 10000

/-- `MAX_MESSAGES_SHOWN`. -/
def MAX_MESSAGES_SHOWN : Nat := 50

/-- `_LOOPBACK_NAMES`. -/
def LOOPBACK_NAMES : List String := ["127.0.0.1", "localhost", "[::1]"]

/-! ## Exceptions -/

/-- `isinstance(exc, …)` for classes given by their names. -/
def Exc.isOneOf (e : Exc) (classes : List String) : Bool :=
  e.isException && classes.contains e.cls

/-- `KeyError`. -/
def KEY_ERRORS : List String := ["KeyError"]

/-- `TypeError`. -/
def TYPE_ERRORS : List String := ["TypeError"]

/-- `GUIError`. -/
def GUI_ERRORS : List String := ["GUIError"]

/-- `ValueError` with its subclasses. -/
def VALUE_ERRORS : List String :=
  ["ValueError", "JSONDecodeError", "UnicodeError", "UnicodeDecodeError", "UnicodeEncodeError",
    "UnicodeTranslateError"] ++ GUI_ERRORS

/-- `RuntimeError` with its subclasses. -/
def RUNTIME_ERRORS : List String := ["RuntimeError", "RecursionError", "NotImplementedError"]

/-- `GUIError(text)`. -/
def guiError (text : String) : Exc := .raised "GUIError" text

/-- No hook raises a `GUIError`. -/
def AgentCode.KeepsGUIError (code : AgentCode σ) : Prop :=
  ∀ s a e, (code.onRestart s a).2 = some e → e.isOneOf GUI_ERRORS = false

/-! ## The standard library -/

/-- `w` is `v` or inside it. -/
inductive Value.Contains : Value → Value → Prop
  | refl (v : Value) : Contains v v
  | item {items : List Value} {v w : Value} (hv : v ∈ items) (h : Contains v w) :
      Contains (.list items) w
  | value {items : List (String × Value)} {key : String} {v w : Value} (hv : (key, v) ∈ items)
      (h : Contains v w) : Contains (.dict items) w

theorem Value.Contains.trans {u v w : Value} (h : Contains u v) (h' : Contains v w) :
    Contains u w := by
  induction h with
  | refl => exact h'
  | item hv _ ih => exact .item hv (ih h')
  | value hv _ ih => exact .value hv (ih h')

/-- What the GUI uses of the standard library. -/
structure PythonLib where
  /-- `str.lower`. -/
  lower : String → String
  /-- `str(exc)`. -/
  str : Exc → String
  /-- `repr`. -/
  repr : Value → Except Exc String
  /-- `json.dumps(value, allow_nan=False)`. -/
  dumpsFinite : Value → Except Exc String
  /-- `json.dumps(value, default=repr)`. -/
  dumpsAny : Value → Except Exc String
  /-- `json.loads` of a string. -/
  loadsText : String → Except Exc Value
  /-- `json.loads` of bytes. -/
  loads : List UInt8 → Except Exc Value
  /-- `json`, as far as snapshots use it. -/
  json : JsonModule
  lower_empty_iff : ∀ s, lower s = "" ↔ s = ""
  loads_braces : loads [123, 125] = .ok (.dict [])
  loads_null : loads [110, 117, 108, 108] = .ok .none
  /-- `json.loads` knows no `GUIError`. -/
  loadsText_raises : ∀ {text e}, loadsText text = .error e → e.isOneOf GUI_ERRORS = false
  /-- `repr` knows no `GUIError`, on what `json.loads` returns. -/
  repr_raises : ∀ {raw v w e}, loads raw = .ok v → v.Contains w → repr w = .error e →
    e.isOneOf GUI_ERRORS = false

namespace PythonLib

variable (lib : PythonLib)

/-- `_jsonable`. -/
def jsonable (v : Value) : Except Exc Value :=
  match lib.dumpsFinite v with
  | .ok encoded => lib.loadsText encoded
  | .error e =>
    if e.isOneOf (TYPE_ERRORS ++ VALUE_ERRORS) then (lib.repr v).map .str else .error e

/-- `_message`. -/
def message (m : Message) : Except Exc Value := do
  let payload ← lib.jsonable m.payload
  let metadata ← m.metadata.entries.mapM fun e => (lib.jsonable e.2).map (e.1, ·)
  return .dict [("sender", .str m.sender), ("to", .str m.recipient), ("payload", payload),
    ("metadata", .dict metadata)]

end PythonLib

/-! ## The server -/

/-- What is fixed while the GUI serves: the agents' code, the kernel's backend,
the standard library, the page, the names of the kernel's integrations, and
whether the operations are called inside a running event loop. -/
structure Deployment (σ : Type) where
  code : AgentCode σ
  backend : Backend
  lib : PythonLib
  page : List UInt8 := []
  integrations : List String := []
  loop : Bool := false

/-- `KernelGUI`. The constructor refuses an empty sender and a history without
room. `port` is the one the server is bound to, and `extraHosts` the argument
`allowed_hosts`. -/
structure KernelGUI (σ : Type) where
  kernel : Kernel σ
  host : String := "127.0.0.1"
  port : Nat
  sender : String := "gui"
  sender_ne : sender ≠ "" := by decide
  history : Nat := 50
  history_pos : 1 ≤ history := by decide
  extraHosts : List String := []
  reports : Deque TickReport history := ∅

/-- `_bracket`. -/
def bracket (host : String) : String :=
  if host.toList.contains ':' && !(['['].isPrefixOf host.toList) then "[" ++ host ++ "]" else host

/-- `_report`. -/
def TickReport.toValue (r : TickReport) : Value :=
  .dict [("tick", .int r.tick), ("ran", .list (r.ran.map .str)),
    ("failed", .list (r.failed.map .str)), ("waiting", .list (r.waiting.map .str)),
    ("restarted", .list (r.restarted.map .str))]

/-- `StopReason.value`. -/
def StopReason.value : StopReason → String
  | finished => "finished"
  | quiescent => "quiescent"
  | maxTicks => "max_ticks"

/-- `reason.value if reason else None`. -/
def stopReasonValue : Option StopReason → Value
  | some reason => .str reason.value
  | none => .none

/-- `type(agent).__name__`. -/
def AgentCode.className (code : AgentCode σ) (a : Agent σ) : String :=
  match a.body with
  | .user s => code.kind s
  | .finished .. => "FinishedAgent"

namespace KernelGUI

/-! The defaults pass the checks of the constructor. -/

theorem default_sender_ne : "gui" ≠ "" := by decide

theorem default_history_pos : 1 ≤ 50 := by decide

/-- The host names the server answers to. -/
def names (gui : KernelGUI σ) : List String :=
  gui.host :: gui.extraHosts
    ++ if ["127.0.0.1", "localhost"].contains gui.host then LOOPBACK_NAMES else []

/-- `_allowed_hosts`. -/
def allowedHosts (lib : PythonLib) (gui : KernelGUI σ) : List String :=
  gui.names.map fun name => lib.lower (bracket name ++ ":" ++ toString gui.port)

/-- `_host_allowed`. -/
def hostAllowed (lib : PythonLib) (gui : KernelGUI σ) : Option String → Bool
  | none => false
  | some host => (gui.allowedHosts lib).contains (lib.lower host)

/-! ## Operations -/

/-- What `state` shows of an agent. -/
def agentState (code : AgentCode σ) (mailboxes : Dict String (List Message)) (a : Agent σ) :
    Value :=
  .dict [("name", .str a.name), ("kind", .str (code.className a)), ("state", .str a.state.value),
    ("alive", .bool a.isAlive),
    ("parent", match a.parent with | some parent => .str parent | none => .none),
    ("restarts", .int a.restarts),
    ("pending", .int (((mailboxes.get? a.name).getD []).length : Nat))]

/-- What `state` shows of a mailbox. -/
def mailboxState (lib : PythonLib) (messages : List Message) : Except Exc Value := do
  let shown ← (messages.take MAX_MESSAGES_SHOWN).mapM lib.message
  return .dict [("count", .int (messages.length : Nat)), ("messages", .list shown)]

/-- `state`. -/
def state (d : Deployment σ) (gui : KernelGUI σ) : Except Exc Value := do
  let mailboxes := gui.kernel.bus.dump
  let agents := gui.kernel.roster.map (agentState d.code mailboxes)
  let boxes ← mailboxes.entries.mapM fun e => (mailboxState d.lib e.2).map (e.1, ·)
  let errors := gui.kernel.errors.map fun e =>
    Value.dict [("agent", .str e.1), ("type", .str e.2.cls), ("error", .str (d.lib.str e.2))]
  return .dict [("tick", .int gui.kernel.tick),
    ("stop_reason", stopReasonValue gui.kernel.stopReason),
    ("quiescent", .bool gui.kernel.isQuiescent), ("backend", .str d.backend.className),
    ("sender", .str gui.sender), ("agents", .list agents), ("mailboxes", .dict boxes),
    ("errors", .list errors), ("integrations", .list (d.integrations.map .str)),
    ("reports", .list (gui.reports.items.reverse.map TickReport.toValue))]

/-- `step`, when the atomic actions happen in the order `sched`. -/
def step (d : Deployment σ) (sched : List Nat) (gui : KernelGUI σ) :
    KernelGUI σ × Except Exc Value :=
  match gui.kernel.stepWith d.code d.backend d.loop sched with
  | (kernel, .error e) => ({ gui with kernel }, .error e)
  | (kernel, .ok report) =>
    ({ gui with kernel, reports := gui.reports.append report }, .ok report.toValue)

/-- `run`, when the atomic actions of its `i`-th tick happen in the order
`scheds i`. -/
def run (d : Deployment σ) (scheds : Nat → List Nat) (maxTicks : Value) (gui : KernelGUI σ) :
    KernelGUI σ × Except Exc Value :=
  match maxTicks with
  | .int n =>
    if 0 ≤ n ∧ n ≤ MAX_RUN_TICKS then
      match gui.kernel.runBy (Kernel.stepsOn d.code d.backend d.loop scheds) n with
      | (kernel, .error e) => ({ gui with kernel }, .error e)
      | (kernel, .ok reports) =>
        ({ gui with kernel, reports := gui.reports.extend reports },
          .ok (.dict [("reports", .list (reports.map TickReport.toValue)),
            ("stop_reason", stopReasonValue kernel.stopReason)]))
    else
      (gui, .error (guiError ("max_ticks must be between 0 and " ++ toString MAX_RUN_TICKS)))
  | _ => (gui, .error (guiError "max_ticks must be an integer"))

/-- The part of `send` under the lock. -/
def post (lib : PythonLib) (m : Message) (gui : KernelGUI σ) : KernelGUI σ × Except Exc Value :=
  match gui.kernel.bus.send m with
  | .error e => (gui, .error (if e.isOneOf KEY_ERRORS then guiError e.text else e))
  | .ok bus => ({ gui with kernel := { gui.kernel with bus } }, lib.message m)

/-- `send`. -/
def send (lib : PythonLib) (recipient payload metadata : Value) (gui : KernelGUI σ) :
    KernelGUI σ × Except Exc Value :=
  match recipient with
  | .str recipient =>
    if recipient = "" then (gui, .error (guiError "'to' must be a non-empty string"))
    else
      match metadata with
      | .none => gui.post lib { sender := gui.sender, recipient, payload }
      | .dict items =>
        gui.post lib { sender := gui.sender, recipient, payload, metadata := Dict.ofList items }
      | _ => (gui, .error (guiError "'metadata' must be an object"))
  | _ => (gui, .error (guiError "'to' must be a non-empty string"))

/-- `snapshot`. -/
def snapshot (d : Deployment σ) (gui : KernelGUI σ) : Except Exc String := do
  (← gui.kernel.snapshot d.code).toJson d.lib.json

end KernelGUI

end TitoOS
