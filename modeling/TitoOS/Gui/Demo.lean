import TitoOS.Conservation
import TitoOS.Script
import Mathlib.Algebra.Order.BigOperators.Group.List
import Mathlib.Algebra.Order.Group.Multiset

/-!
# The demo kernel

The agents that `python -m titoos.gui` shows (`gui/__main__.py`): a dispatcher
that hands out jobs, two workers, one of which fails once, and a collector. On
any backend and in any order of actions no job is lost or done twice, and the
kernel comes to rest (`demo_accounts`).
-/

namespace TitoOS

/-- The attributes of a `Dispatcher`, a `Worker` and a `Collector`. -/
inductive DemoAgent where
  | dispatcher (workers : List String) (next : Nat)
  | worker (flaky : Bool)
  | collector (results : List Value)
  deriving DecidableEq

/-- What an f-string makes of a payload: `str`, and `repr` with `!r`. -/
structure PayloadTexts where
  str : Value → String
  repr : Value → String
  str_str : ∀ s, str (.str s) = s

namespace DemoAgent

/-- `for job in jobs: ctx.send(self.name, job)`, where `self.name` is `name`. -/
def announce (name : String) : List String → StepProg DemoAgent → StepProg DemoAgent
  | [], rest => rest
  | job :: jobs, rest => .send name (.str job) ∅ fun
    | .ok () => announce name jobs rest
    | .error e => .raise e

/-- The jobs of the demo. -/
def jobs : List String := ["index", "resize", "upload"]

/-- The loop of `Dispatcher.step` over `ctx.inbox`. -/
def handOut (workers : List String) : Nat → List Message → StepProg DemoAgent
  | _, [] => .wait .ret
  | next, m :: inbox =>
    match workers[next % workers.length]? with
    | none => .raise (.raised "ZeroDivisionError" "integer modulo by zero")
    | some name => .send name m.payload ∅ fun
      | .ok () => .store (.dispatcher workers (next + 1)) (handOut workers (next + 1) inbox)
      | .error e => .raise e

/-- The loop of `Worker.step`. -/
def work (texts : PayloadTexts) (name : String) (flaky : Bool) : List Message → StepProg DemoAgent
  | [] => .wait .ret
  | m :: inbox =>
    if flaky then
      .store (.worker false)
        (.raise (.raised "RuntimeError" ("transient failure on " ++ texts.repr m.payload)))
    else
      .send "collector" (.str (texts.str m.payload ++ ": done by " ++ name)) ∅ fun
        | .ok () => work texts name flaky inbox
        | .error e => .raise e

/-- The three classes. -/
def code (texts : PayloadTexts) : AgentCode DemoAgent where
  step
    | .dispatcher workers next, a, tick, inbox =>
      announce a.name (if tick = 1 then jobs else []) (handOut workers next inbox)
    | .worker flaky, a, _, inbox => work texts a.name flaky inbox
    | .collector results, _, _, inbox =>
      .store (.collector (results ++ inbox.map Message.payload)) (.wait .ret)
  onRestart s _ := (s, none)
  isAsync _ := false
  kind
    | .dispatcher .. => "Dispatcher"
    | .worker _ => "Worker"
    | .collector _ => "Collector"
  saveState _ := ∅
  loadState s _ := .ok s

theorem dispatcher_ne : "dispatcher" ≠ "" := by decide

theorem first_worker_ne : "worker-1" ≠ "" := by decide

theorem second_worker_ne : "worker-2" ≠ "" := by decide

theorem collector_ne : "collector" ≠ "" := by decide

/-- `Dispatcher("dispatcher", ["worker-1", "worker-2"])` -/
def dispatcherAgent : FreshAgent DemoAgent where
  name := "dispatcher"
  name_ne := dispatcher_ne
  body := .user (.dispatcher ["worker-1", "worker-2"] 0)
  fresh_state := rfl
  fresh_restarts := FreshAgent.default_restarts

/-- `Worker(name, flaky)` -/
def workerAgent (name : String) (name_ne : name ≠ "") (flaky : Bool) : FreshAgent DemoAgent where
  name
  name_ne
  body := .user (.worker flaky)
  restartPolicy := .onFailure
  fresh_state := rfl
  fresh_restarts := FreshAgent.default_restarts

/-- `Collector("collector")` -/
def collectorAgent : FreshAgent DemoAgent where
  name := "collector"
  name_ne := collector_ne
  body := .user (.collector [])
  fresh_state := rfl
  fresh_restarts := FreshAgent.default_restarts

/-- `demo_kernel`. -/
def demoKernel : Except Exc (Kernel DemoAgent) := do
  let kernel ← ({} : Kernel DemoAgent).register dispatcherAgent none
  let kernel ← kernel.register (workerAgent "worker-1" first_worker_ne false) (some "dispatcher")
  let kernel ← kernel.register (workerAgent "worker-2" second_worker_ne true) (some "dispatcher")
  kernel.register collectorAgent none

/-! ## What the steps may call -/

theorem announce_contextOnly (name : String) {rest : StepProg DemoAgent}
    (hrest : rest.ContextOnly) (jobs : List String) : (announce name jobs rest).ContextOnly := by
  induction jobs with
  | nil => exact hrest
  | cons job jobs ih =>
    refine ⟨trivial, fun answer _ => ?_⟩
    cases answer with
    | ok => exact ih
    | error e => exact trivial

theorem handOut_contextOnly (workers : List String) (next : Nat) (inbox : List Message) :
    (handOut workers next inbox).ContextOnly := by
  induction inbox generalizing next with
  | nil => exact ⟨trivial, trivial⟩
  | cons m inbox ih =>
    unfold handOut
    split
    · exact trivial
    · refine ⟨trivial, fun answer _ => ?_⟩
      cases answer with
      | ok => exact ⟨trivial, ih (next + 1)⟩
      | error e => exact trivial

theorem work_contextOnly (texts : PayloadTexts) (name : String) (flaky : Bool)
    (inbox : List Message) : (work texts name flaky inbox).ContextOnly := by
  induction inbox with
  | nil => exact ⟨trivial, trivial⟩
  | cons m inbox ih =>
    unfold work
    split
    · exact ⟨trivial, trivial⟩
    · refine ⟨trivial, fun answer _ => ?_⟩
      cases answer with
      | ok => exact ih
      | error e => exact trivial

theorem code_contextOnly (texts : PayloadTexts) : (code texts).ContextOnly := by
  intro s a tick inbox
  cases s with
  | dispatcher workers next => exact announce_contextOnly _ (handOut_contextOnly ..) _
  | worker flaky => exact work_contextOnly ..
  | collector results => exact ⟨trivial, trivial, trivial⟩

/-! ## What the agents do with what they are given -/

section

variable {texts : PayloadTexts} {a : Agent DemoAgent} (tick : Int) (inbox : List Message)

theorem stepOf_dispatcher {workers : List String} {next : Nat}
    (h : a.body = .user (.dispatcher workers next)) :
    (code texts).stepOf { a with state := .running } tick inbox
      = announce a.name (if tick = 1 then jobs else []) (handOut workers next inbox) := by
  simp [AgentCode.stepOf, h, code]

theorem stepOf_worker {flaky : Bool} (h : a.body = .user (.worker flaky)) :
    (code texts).stepOf { a with state := .running } tick inbox
      = work texts a.name flaky inbox := by
  simp [AgentCode.stepOf, h, code]

theorem stepOf_collector {results : List Value} (h : a.body = .user (.collector results)) :
    (code texts).stepOf { a with state := .running } tick inbox
      = .store (.collector (results ++ inbox.map Message.payload)) (.wait .ret) := by
  simp [AgentCode.stepOf, h, code]

end

/-- The names of the agents. -/
def names : List String := ["dispatcher", "worker-1", "worker-2", "collector"]

/-- An agent of the demo between its steps. A worker that is going to fail has a
restart left. -/
inductive Plays (a : Agent DemoAgent) : Prop
  | dispatcher {next : Nat} (hname : a.name = "dispatcher")
      (hbody : a.body = .user (.dispatcher ["worker-1", "worker-2"] next))
      (hpolicy : a.restartPolicy = .never)
  | worker {flaky : Bool} (hname : a.name ∈ ["worker-1", "worker-2"])
      (hbody : a.body = .user (.worker flaky))
      (hrestart : flaky = true → Kernel.mayRestart a = true)
  | collector {results : List Value} (hname : a.name = "collector")
      (hbody : a.body = .user (.collector results))

/-- What the agents weigh: a payload in the mailbox of the dispatcher, of a worker
and of the collector, and as a result that was kept. Whoever takes a message and
hands on what comes of it uses up `spent`. -/
structure Weights (texts : PayloadTexts) (M : Type) [AddCommMonoid M] where
  balance : Balance M
  ordered : Value → M
  handed : Value → M
  done : Value → M
  kept : Value → M
  spent : M
  ordered_eq : ∀ v, ordered v = handed v + spent
  handed_eq : ∀ v, ∀ name ∈ ["worker-1", "worker-2"],
    handed v = done (.str (texts.str v ++ ": done by " ++ name)) + spent
  done_eq : ∀ v, done v = kept v + spent
  gain : ∀ (a : M) (n : Nat), balance.within a (a + n • spent)

namespace Weights

variable {texts : PayloadTexts} {M : Type} [AddCommMonoid M] (w : Weights texts M)

/-- What a payload weighs in the mailbox of `x`. -/
def weight (x : String) (v : Value) : M :=
  if x = "dispatcher" then w.ordered v
  else if x = "collector" then w.done v
  else w.handed v

/-- What the attributes of an agent weigh. -/
def body : Body DemoAgent → M
  | .user (.worker true) => 2 • w.spent
  | .user (.collector results) => (results.map w.kept).sum
  | _ => 0

/-- What an agent weighs: a READY agent has a step to make. -/
def held (a : Agent DemoAgent) : M := (if a.state = .ready then w.spent else 0) + w.body a.body

/-- What the dispatcher is to announce. -/
def announced : M := (jobs.map fun job => w.ordered (.str job)).sum

/-- The weights as a quantity of the kernel. -/
def stock : Stock DemoAgent M where
  balance := w.balance
  fits a := Plays a ∧ (a.state = .ready ∨ a.state = .waiting)
  held := w.held
  carried x m := w.weight x m.payload
  made x tick := if x = "dispatcher" ∧ tick = 1 then w.announced else 0
  spent := w.spent
  lasting x := x ∈ names

/-- A step may end when it has used up something. -/
theorem ends {a : Agent DemoAgent} (hplays : Plays a)
    (hstate : a.state = .ready ∨ a.state = .waiting) {n : Nat} (hn : 0 < n) {back owed : M}
    (howed : owed = w.held a + back + n • w.spent) : w.stock.Ends a back owed := by
  constructor
  case fits => exact fun _ => ⟨hplays, hstate⟩
  case lasting =>
    intro _
    obtain h | h := hstate <;> rw [Agent.isAlive, h] <;> rfl
  case within =>
    obtain ⟨n, rfl⟩ := Nat.exists_eq_add_of_lt hn
    rw [howed, Nat.zero_add, succ_nsmul', ← add_assoc]
    exact w.gain _ n

/-- A payload that is handed on weighs `spent` less in the next mailbox. -/
theorem sum_map_spent {f g : Value → M} (h : ∀ v, f v = g v + w.spent) (inbox : List Message) :
    (inbox.map fun m => f m.payload).sum
      = (inbox.map fun m => g m.payload).sum + inbox.length • w.spent := by
  induction inbox with
  | nil => simp
  | cons m inbox ih =>
    rw [List.map_cons, List.sum_cons, ih, h, List.map_cons, List.sum_cons, List.length_cons,
      succ_nsmul']
    abel

/-- A step that has used up something may wait and end. -/
theorem keeps_wait {a : Agent DemoAgent} {async : Bool} {given owed : M} {n : Nat}
    (hplays : Plays { a with state := .waiting }) (hn : 0 < n)
    (howed : owed = w.body a.body + n • w.spent) :
    (StepProg.wait .ret).Keeps w.stock (code texts) async given a owed := by
  have hsettled : Agent.settled { a with state := .waiting } = { a with state := .waiting } := by
    simp [Agent.settled]
  show w.stock.Ends (Agent.settled { a with state := .waiting }) 0 owed
  rw [hsettled]
  exact w.ends hplays (.inr rfl) hn (by simpa [held] using howed)

/-- A message to one of the agents is delivered, and carries away what it weighs. -/
theorem keeps_send {a : Agent DemoAgent} {async : Bool} {given owed left : M} {x : String}
    {payload : Value} {rest : Except Exc Unit → StepProg DemoAgent} (hx : x ∈ names)
    (howed : owed = w.weight x payload + left)
    (hrest : (rest (.ok ())).Keeps w.stock (code texts) async given a left) :
    (StepProg.send x payload ∅ rest).Keeps w.stock (code texts) async given a owed := by
  have hno : (x == BROADCAST) = false := by
    simp only [names, List.mem_cons, List.not_mem_nil, or_false] at hx
    obtain rfl | rfl | rfl | rfl := hx <;> decide
  refine ⟨fun hbroadcast => ?_, ⟨left, ?_, hrest⟩, fun hlast => absurd hx hlast⟩
  · simp [Message.isBroadcast, hno] at hbroadcast
  · simp only [Stock.posted, Message.isBroadcast, hno]
    exact howed

theorem announce_keeps {a : Agent DemoAgent} {async : Bool} {given owed left : M} {x : String}
    {jobs : List String} {rest : StepProg DemoAgent} (hx : x = "dispatcher")
    (howed : owed = (jobs.map fun job => w.ordered (.str job)).sum + left)
    (hrest : rest.Keeps w.stock (code texts) async given a left) :
    (announce x jobs rest).Keeps w.stock (code texts) async given a owed := by
  subst hx howed
  induction jobs with
  | nil => simpa [announce] using hrest
  | cons job jobs ih =>
    refine w.keeps_send (by decide) ?_ ih
    rw [List.map_cons, List.sum_cons, add_assoc]
    rfl

/-- The two workers take turns. -/
theorem exists_worker (next : Nat) : ∃ x ∈ ["worker-1", "worker-2"],
    ["worker-1", "worker-2"][next % ["worker-1", "worker-2"].length]? = some x := by
  have hlt := Nat.mod_lt next (show 0 < ["worker-1", "worker-2"].length by decide)
  exact ⟨_, List.getElem_mem hlt, List.getElem?_eq_getElem hlt⟩

theorem mem_names {x : String} (hx : x ∈ ["worker-1", "worker-2"]) : x ∈ names := by
  simp only [List.mem_cons, List.not_mem_nil, or_false] at hx
  obtain rfl | rfl := hx <;> decide

theorem weight_worker {x : String} (hx : x ∈ ["worker-1", "worker-2"]) (v : Value) :
    w.weight x v = w.handed v := by
  simp only [List.mem_cons, List.not_mem_nil, or_false] at hx
  obtain rfl | rfl := hx <;> rfl

theorem handOut_keeps {async : Bool} {given owed : M} {inbox : List Message}
    {a : Agent DemoAgent} {next n : Nat} (hname : a.name = "dispatcher")
    (hbody : a.body = .user (.dispatcher ["worker-1", "worker-2"] next))
    (hpolicy : a.restartPolicy = .never) (hn : 0 < inbox.length + n)
    (howed : owed = (inbox.map fun m => w.ordered m.payload).sum + n • w.spent) :
    (handOut ["worker-1", "worker-2"] next inbox).Keeps w.stock (code texts) async given a
      owed := by
  subst howed
  induction inbox generalizing a next n with
  | nil =>
    refine w.keeps_wait (.dispatcher hname hbody hpolicy) (by simpa using hn) ?_
    rw [hbody]
    rfl
  | cons m inbox ih =>
    obtain ⟨x, hx, hget⟩ := exists_worker next
    simp only [handOut, hget]
    refine w.keeps_send (mem_names hx) ?_
      (ih (a := { a with body := .user (.dispatcher _ (next + 1)) }) (n := n + 1) hname rfl hpolicy
        (by omega))
    rw [List.map_cons, List.sum_cons, w.ordered_eq, w.weight_worker hx, succ_nsmul']
    abel

theorem work_keeps {async : Bool} {given owed : M} {inbox : List Message} {a : Agent DemoAgent}
    {n : Nat} (hname : a.name ∈ ["worker-1", "worker-2"]) (hbody : a.body = .user (.worker false))
    (hn : 0 < inbox.length + n)
    (howed : owed = (inbox.map fun m => w.handed m.payload).sum + n • w.spent) :
    (work texts a.name false inbox).Keeps w.stock (code texts) async given a owed := by
  subst howed
  induction inbox generalizing n with
  | nil =>
    refine w.keeps_wait (.worker hname hbody fun h => by cases h)
      (by simpa using hn) ?_
    rw [hbody]
    rfl
  | cons m inbox ih =>
    simp only [work, Bool.false_eq_true, if_false]
    refine w.keeps_send (x := "collector") (by decide) ?_ (ih (n := n + 1) (by omega))
    rw [List.map_cons, List.sum_cons, w.handed_eq _ _ hname, succ_nsmul']
    show _ = w.done _ + _
    abel

/-- A worker that fails keeps what it was given, and is restarted. -/
theorem flaky_keeps {async : Bool} {given owed : M} {inbox : List Message} {a : Agent DemoAgent}
    {n : Nat} (hname : a.name ∈ ["worker-1", "worker-2"]) (hbody : a.body = .user (.worker true))
    (hrestart : Kernel.mayRestart a = true) (hn : 0 < inbox.length + n)
    (hgiven : inbox = [] → given = 0) (howed : owed = 2 • w.spent + given + n • w.spent) :
    (work texts a.name true inbox).Keeps w.stock (code texts) async given a owed := by
  subst howed
  cases inbox with
  | nil =>
    refine w.keeps_wait (.worker hname hbody fun _ => hrestart)
      (by simpa using hn) ?_
    rw [hbody, hgiven rfl, add_zero]
    rfl
  | cons m inbox =>
    simp only [work, if_true]
    intro _
    have hrecovered : Kernel.recovered (code texts) { a with
          body := .user (.worker false), state := .failed }
        = { a with body := .user (.worker false), state := .ready, restarts := a.restarts + 1 } :=
      if_pos hrestart
    have hplays : Plays { a with
        body := .user (.worker false), state := .ready, restarts := a.restarts + 1 } :=
      .worker hname rfl fun h => by cases h
    rw [hrecovered]
    refine w.ends hplays (.inl rfl) (Nat.succ_pos n) ?_
    simp only [held, body, if_true, succ_nsmul', add_zero]
    abel

theorem collect_keeps {async : Bool} {given owed : M} {inbox : List Message} {a : Agent DemoAgent}
    {n : Nat} {results : List Value} (hname : a.name = "collector") (hn : 0 < inbox.length + n)
    (howed : owed = (results.map w.kept).sum + (inbox.map fun m => w.done m.payload).sum
      + n • w.spent) :
    (StepProg.store (.collector (results ++ inbox.map Message.payload)) (.wait .ret)).Keeps
      w.stock (code texts) async given a owed := by
  suffices h : (StepProg.wait .ret).Keeps w.stock (code texts) async given
      { a with body := .user (.collector (results ++ inbox.map Message.payload)) } owed from h
  refine w.keeps_wait (Plays.collector hname rfl) hn ?_
  show owed = ((results ++ inbox.map Message.payload).map w.kept).sum + _
  rw [howed, w.sum_map_spent w.done_eq, List.map_append, List.sum_append, List.map_map, add_nsmul]
  simp only [Function.comp_def]
  abel

theorem given_of_ne {x : String} (hx : x ≠ "dispatcher") (tick : Int) (inbox : List Message) :
    w.stock.given x tick inbox = (inbox.map fun m => w.weight x m.payload).sum := by
  simp [Stock.given, stock, Tally.box, hx]

theorem given_dispatcher {x : String} (hx : x = "dispatcher") (tick : Int)
    (inbox : List Message) : w.stock.given x tick inbox
      = ((if tick = 1 then jobs else []).map fun job => w.ordered (.str job)).sum
        + (inbox.map fun m => w.ordered m.payload).sum := by
  subst hx
  have hbox : Tally.box w.stock.carried "dispatcher" inbox
      = (inbox.map fun m => w.ordered m.payload).sum := rfl
  rw [Stock.given, hbox, add_comm]
  by_cases htick : tick = 1 <;> simp [stock, htick, announced]

/-- **The demo keeps its accounts**, whatever is weighed. -/
theorem code_keeps : (code texts).Keeps w.stock := by
  rintro async a tick inbox ⟨hplays, hstate⟩ hmail -
  -- a READY agent may have no mail, but it has a step to make
  obtain ⟨n, hn, hheld⟩ : ∃ n, 0 < inbox.length + n
      ∧ w.stock.held a = w.body a.body + n • w.spent := by
    obtain hready | hwaiting := hstate
    · refine ⟨1, by omega, ?_⟩
      rw [one_nsmul]
      simp [stock, held, hready, add_comm]
    · exact ⟨0, List.length_pos_of_ne_nil (hmail hwaiting), by simp [stock, held, hwaiting]⟩
  rw [hheld]
  cases hplays with
  | @dispatcher next hname hbody hpolicy =>
    rw [stepOf_dispatcher _ _ hbody, w.given_dispatcher hname]
    refine w.announce_keeps hname ?_ (w.handOut_keeps hname hbody hpolicy hn rfl)
    rw [hbody]
    simp only [body, zero_add]
    abel
  | @worker flaky hname hbody hrestart =>
    have hne : a.name ≠ "dispatcher" := by
      rintro h
      rw [h] at hname
      simp at hname
    rw [stepOf_worker _ _ hbody, w.given_of_ne hne]
    simp only [w.weight_worker hname]
    cases flaky with
    | true =>
      refine w.flaky_keeps (a := { a with state := .running }) (n := n) hname hbody (hrestart rfl)
        hn (fun hempty => by rw [hempty]; rfl) ?_
      rw [hbody]
      simp only [body]
      abel
    | false =>
      refine w.work_keeps (a := { a with state := .running }) (n := n) hname hbody hn ?_
      rw [hbody]
      simp only [body, zero_add]
      abel
  | @collector results hname hbody =>
    rw [stepOf_collector _ _ hbody, w.given_of_ne (by simp [hname])]
    have hweight : ∀ v, w.weight a.name v = w.done v := by
      rw [hname]
      exact fun _ => rfl
    simp only [hweight]
    refine w.collect_keeps (a := { a with state := .running }) (n := n) hname hn ?_
    rw [hbody]
    simp only [body]
    abel

end Weights

/-! ## The start -/

/-- The agents of the demo, as they are registered. -/
theorem objects_demoKernel {k : Kernel DemoAgent} (h : demoKernel = .ok k) :
    k.objects = [dispatcherAgent.linked none,
      (workerAgent "worker-1" first_worker_ne false).linked (some "dispatcher"),
      (workerAgent "worker-2" second_worker_ne true).linked (some "dispatcher"),
      collectorAgent.linked none] := by
  have hmap : demoKernel.map Kernel.objects = .ok _ := rfl
  rw [h] at hmap
  exact Except.ok.inj hmap

theorem inboxOf_demoKernel {k : Kernel DemoAgent} (h : demoKernel = .ok k) :
    k.tick = 0 ∧ k.bus.mailboxes.entries = names.map fun x => (x, []) := by
  have hmap : demoKernel.map (fun k => (k.tick, k.bus.mailboxes.entries)) = .ok _ := rfl
  rw [h] at hmap
  exact Prod.ext_iff.mp (Except.ok.inj hmap)

/-- Python's texts of strings; those of other payloads do not matter here. -/
def plainTexts : PayloadTexts where
  str
    | .str s => s
    | _ => ""
  repr _ := ""
  str_str _ := rfl

theorem sound_demoKernel {k : Kernel DemoAgent} (h : demoKernel = .ok k) : k.Sound := by
  have hreplay : (Kernel.replay (code plainTexts)
      [.register dispatcherAgent none,
        .register (workerAgent "worker-1" first_worker_ne false) (some "dispatcher"),
        .register (workerAgent "worker-2" second_worker_ne true) (some "dispatcher"),
        .register collectorAgent none] {}).map Prod.snd = demoKernel.toOption := rfl
  rw [h] at hreplay
  obtain ⟨r, hr, rfl⟩ := Option.map_eq_some_iff.mp hreplay
  exact (Kernel.replay_run hr).sound (code_contextOnly _) Kernel.sound_init

theorem isLive_demoKernel {k : Kernel DemoAgent} (h : demoKernel = .ok k) {x : String}
    (hx : x ∈ names) : k.isLive x = true := by
  have hmap : demoKernel.map (fun k => names.all k.isLive) = .ok true := rfl
  rw [h] at hmap
  exact List.all_eq_true.mp (Except.ok.inj hmap) x hx

/-- The agents of the demo at the start: READY, and each in its part. -/
theorem plays_demoKernel {k : Kernel DemoAgent} (h : demoKernel = .ok k) {a : Agent DemoAgent}
    (ha : a ∈ k.objects) : Plays a ∧ a.state = .ready := by
  rw [objects_demoKernel h] at ha
  simp only [List.mem_cons, List.not_mem_nil, or_false] at ha
  obtain rfl | rfl | rfl | rfl := ha
  · exact ⟨.dispatcher rfl rfl rfl, rfl⟩
  · exact ⟨.worker (by decide) rfl (fun h => by cases h), rfl⟩
  · exact ⟨.worker (by decide) rfl (fun _ => rfl), rfl⟩
  · exact ⟨.collector rfl rfl, rfl⟩

/-! ## Whole runs -/

namespace Weights

variable {texts : PayloadTexts} {M : Type} [AddCommMonoid M] (w : Weights texts M)
  {k k' : Kernel DemoAgent}

theorem holds_demoKernel (h : demoKernel = .ok k) : w.stock.Holds k where
  sound := sound_demoKernel h
  fits x a ha _ := by
    obtain ⟨ref, -, ho⟩ := Kernel.agent?_eq_some_iff.mp ha
    obtain ⟨hplays, hready⟩ := plays_demoKernel h (List.mem_of_getElem? ho)
    exact ⟨hplays, .inl hready⟩
  lasting x hx := isLive_demoKernel h hx

/-- What all that is posted from outside weighs. -/
def posted (es : List (Event DemoAgent)) : M :=
  (es.map fun
    | .posted log => Tally.log w.stock.carried log
    | _ => 0).sum

variable {w}

theorem mem_names_of_job (hk : w.stock.Holds k) {t : TickState DemoAgent} (hin : InTick k t)
    {job : Job DemoAgent} (hjob : job ∈ t.jobs) : job.name ∈ names := by
  obtain ⟨a, hreg, ho, hname, halive, -⟩ := hin.origin hk.sound.wf hjob
  obtain ⟨hplays, -⟩ := hk.fits _ a (Kernel.agent?_eq_some_iff.mpr ⟨_, hreg, ho⟩) halive
  rw [← hname]
  cases hplays with
  | dispatcher h => rw [h]; decide
  | worker h => exact mem_names h
  | collector h => rw [h]; decide

/-- The dispatcher does not fail: it would be gone. -/
theorem returned_of_dispatcher {t : TickState DemoAgent} {sent : List Delivery}
    {restarted : List String} (hrun : TickRun (code texts) k t sent k' restarted)
    (hk : w.stock.Holds k) (hk' : w.stock.Holds k') {job : Job DemoAgent} (hjob : job ∈ t.jobs)
    (hname : job.name = "dispatcher") : job.phase.isReturned = true := by
  have hwf := hk.sound.wf
  obtain ⟨a, hreg, ho, haname, halive, -⟩ := hrun.point.inTick.origin hwf hjob
  obtain ⟨b, hb, hsame, -⟩ := hrun.point.inTick.object _ _ ho
  have hpolicy : b.restartPolicy = .never := by
    obtain ⟨hplays, -⟩ := hk.fits _ a (Kernel.agent?_eq_some_iff.mpr ⟨_, hreg, ho⟩) halive
    rw [hsame]
    cases hplays with
    | dispatcher _ _ h => exact h
    | worker h => rw [haname, hname] at h; simp at h
    | collector h => rw [haname, hname] at h; simp at h
  obtain ⟨c, hc, hcalive⟩ :=
    Kernel.isLive_iff.mp (hk'.lasting "dispatcher" (show "dispatcher" ∈ names by decide))
  rw [← hname, hrun.agent?_of_job hwf hjob hb] at hc
  cases hc
  have hsettled := hrun.settled hjob
  cases hphase : job.phase with
  | pending | running | escaped => rw [hphase] at hsettled; cases hsettled
  | returned => rfl
  | failed calls inbox =>
    have hfailed := hrun.point.inTick.state_of_started hjob (by rw [hphase]; rfl) hb
    rw [hphase] at hfailed
    rw [Job.concluded, Kernel.mayRestart, hpolicy, hphase, Agent.isAlive] at hcalive
    simp [← Option.some.inj hfailed, AgentState.isAlive] at hcalive

/-- **A tick of the demo** loses nothing and notifies nobody, and the first one
announces the jobs. -/
theorem tick_books (hk : w.stock.Holds k) {b : Backend} {loop : Bool} {sched : List Nat}
    {report : TickReport} (hallow : k.Allows (code texts) b loop sched)
    (hstep : k.stepWith (code texts) b loop sched = (k', .ok report))
    (hready : k.tick = 0 → ∃ a, k.agent? "dispatcher" = some a ∧ a.state = .ready) :
    w.stock.Holds k' ∧ k'.tick = k.tick + 1
      ∧ w.stock.lost (code texts) (.ticked (k.tickWith (code texts) b loop sched)
          (k.stepLog (code texts) b loop sched) report) = 0
      ∧ w.stock.entered (code texts) (.ticked (k.tickWith (code texts) b loop sched)
          (k.stepLog (code texts) b loop sched) report)
        = if k.tick = 0 then w.announced else 0 := by
  have hwf := hk.sound.wf
  obtain ⟨hk', -⟩ := hk.tick w.code_keeps (code_contextOnly texts) rfl hallow hstep
  obtain ⟨sent, restarted, hrun, -⟩ :=
    Kernel.tickRun_of_stepWith (code_contextOnly texts) hwf hk.sound.addressable hallow hstep
  generalize k.tickWith (code texts) b loop sched = t at hrun ⊢
  have hin := hrun.point.inTick
  obtain ⟨hended, hnotices⟩ := hrun.lost_of_survived hwf fun job hjob =>
    hk'.lasting _ (mem_names_of_job hk hin hjob)
  refine ⟨hk', hrun.outcome.tick, by simp [Stock.lost, hended], ?_⟩
  rw [Stock.entered, hnotices, Tally.log_nil, add_zero, hin.tick]
  by_cases hfirst : k.tick = 0
  · obtain ⟨a, ha, hstate⟩ := hready hfirst
    have halive : a.isAlive = true := by rw [Agent.isAlive, hstate]; rfl
    obtain ⟨job, hjob, hname⟩ := (hin.scheduled_or_idle hwf ha halive).resolve_right
      fun h => by rw [hstate] at h; cases h.1
    have hreturned := returned_of_dispatcher hrun hk hk' hjob hname
    -- the dispatcher is one of the agents whose steps returned
    have hworked : job ∈ t.jobs.filter fun job => job.phase.isReturned :=
      List.mem_filter.mpr ⟨hjob, hreturned⟩
    have hsum := Tally.sum_names
      ((hin.names_nodup hwf).sublist (List.filter_sublist.map Job.name)) {"dispatcher"}
      (fun _ => w.announced) fun x hx hno =>
        absurd (hname.trans (Finset.mem_singleton.mp hx).symm) (hno job hworked)
    rw [Finset.sum_singleton] at hsum
    rw [if_pos hfirst, hsum, hfirst]
    simp [stock]
  · have hlater : ¬ k.tick + 1 = 1 := by omega
    simp [stock, hfirst, hlater]

/-- A post changes no agent and not the tick. -/
theorem agent?_of_post {s r : String} {p : Value} {m : Metadata} (h : k.busPost s r p m = .ok k') :
    k'.tick = k.tick ∧ ∀ x, k'.agent? x = k.agent? x := by
  obtain ⟨bus, -, rfl⟩ := Kernel.busPost_eq_ok h
  exact ⟨rfl, fun _ => rfl⟩

/-- **The books of a run of the demo**: what has entered was posted or announced in
the first tick, and nothing was lost. -/
theorem run_books {start : Kernel DemoAgent} (hstart : demoKernel = .ok start)
    {es : List (Event DemoAgent)} (hrun : Kernel.Run (code texts) start es k)
    (hclosed : ∀ a p, .registered a p ∉ es) :
    w.stock.Holds k ∧ 0 ≤ k.tick
      ∧ (k.tick = 0 → ∃ a, k.agent? "dispatcher" = some a ∧ a.state = .ready)
      ∧ (es.map (w.stock.lost (code texts))).sum = 0
      ∧ (es.map (w.stock.entered (code texts))).sum
        = w.posted es + if k.tick = 0 then 0 else w.announced := by
  induction hrun with
  | nil =>
    obtain ⟨htick, -⟩ := inboxOf_demoKernel hstart
    refine ⟨w.holds_demoKernel hstart, htick.ge, fun _ => ?_, rfl, by simp [posted, htick]⟩
    obtain ⟨a, ha, -⟩ :=
      Kernel.isLive_iff.mp (isLive_demoKernel hstart (show "dispatcher" ∈ names by decide))
    obtain ⟨ref, -, ho⟩ := Kernel.agent?_eq_some_iff.mp ha
    exact ⟨a, ha, (plays_demoKernel hstart (List.mem_of_getElem? ho)).2⟩
  | @snoc es e u u' hrun hnext ih =>
    obtain ⟨hu, hnonneg, hready, hlost, hentered⟩ := ih fun a p hmem => hclosed a p (by simp [hmem])
    simp only [List.map_append, List.sum_append, hlost, hentered, posted]
    cases hnext with
    | @register _ a p => exact absurd (by simp) (hclosed a p)
    | post hpost =>
      obtain ⟨hholds, -⟩ := hu.busPost hpost
      obtain ⟨htick, hagents⟩ := agent?_of_post hpost
      refine ⟨hholds, by rw [htick]; exact hnonneg, ?_, by simp [Stock.lost], ?_⟩
      · simp only [htick, hagents]
        exact hready
      · rw [htick]
        simp [Stock.entered, add_right_comm]
    | tick hallow hstep =>
      obtain ⟨hholds, htick, hlost', hentered'⟩ := tick_books hu hallow hstep hready
      refine ⟨hholds, by omega, fun h => by omega, by simpa using hlost', ?_⟩
      rw [if_neg (by omega : ¬ u'.tick = 0)]
      simp only [List.map_cons, List.map_nil, List.sum_cons, List.sum_nil, add_zero, hentered']
      split <;> simp

/-- At the start every agent has a step to make, and the flaky worker two more. -/
theorem total_demoKernel (w : Weights texts M) (h : demoKernel = .ok k) :
    w.stock.total k = 6 • w.spent := by
  have hmail : w.stock.mail k = 0 := by
    rw [Stock.mail_eq, (inboxOf_demoKernel h).2]
    simp [names]
  have hbody : (k.objects.map w.stock.held).sum = 6 • w.spent := by
    rw [objects_demoKernel h]
    simp [stock, held, body, dispatcherAgent, workerAgent, collectorAgent, FreshAgent.linked]
    abel
  rw [Stock.total, Stock.holdings, hmail, hbody, add_zero]

/-- What the steps of a run use up. -/
theorem sum_used (w : Weights texts M) (es : List (Event DemoAgent)) :
    (es.map w.stock.used).sum = (es.map fun e => e.jobs.length).sum • w.spent := by
  induction es with
  | nil => simp
  | cons e es ih =>
    simp only [List.map_cons, List.sum_cons, ih, add_nsmul]
    rfl

/-- **The accounts of a run of the demo.** -/
theorem run_balance (w : Weights texts M) {start : Kernel DemoAgent}
    (hstart : demoKernel = .ok start) {es : List (Event DemoAgent)}
    (hrun : Kernel.Run (code texts) start es k) (hclosed : ∀ a p, .registered a p ∉ es) :
    w.balance.within (w.stock.total k + (es.map fun e => e.jobs.length).sum • w.spent)
      (6 • w.spent + (w.posted es + if k.tick = 0 then 0 else w.announced)) := by
  obtain ⟨-, -, -, hlost, hentered⟩ := run_books (w := w) hstart hrun hclosed
  obtain ⟨-, hwithin⟩ := agents_keep_accounts w.code_keeps (code_contextOnly texts)
    (w.holds_demoKernel hstart) hrun fun a p hmem => absurd hmem (hclosed a p)
  rw [List.sum_map_add, hlost, zero_add, hentered, w.total_demoKernel hstart, w.sum_used] at hwithin
  exact hwithin

end Weights

/-! ## Jobs -/

section

variable (texts : PayloadTexts)

/-- The job that a result is of. -/
def jobOf : Value → String
  | .str text => String.ofList (text.toList.take (text.length - ": done by worker-1".length))
  | payload => texts.str payload

/-- The job that a payload is or is of, in the mailbox of `x`. -/
def jobAt (x : String) (payload : Value) : String :=
  if x = "collector" then jobOf texts payload else texts.str payload

/-- `collector.results` -/
def resultsOf (a : Agent DemoAgent) : List Value :=
  match a.body with
  | .user (.collector results) => results
  | _ => []

/-- The results kept by the collector. -/
def results (k : Kernel DemoAgent) : List Value := k.objects.flatMap resultsOf

/-- The jobs in the mailboxes. -/
def underway (k : Kernel DemoAgent) : List String :=
  k.bus.mailboxes.entries.flatMap fun e => e.2.map fun m => jobAt texts e.1 m.payload

/-- The jobs posted from outside. -/
def orders (es : List (Event DemoAgent)) : List String :=
  es.flatMap fun
    | .posted log => log.map fun d => jobAt texts d.1 d.2.payload
    | _ => []

theorem jobOf_result (v : Value) {name : String} (hname : name ∈ ["worker-1", "worker-2"]) :
    jobOf texts (.str (texts.str v ++ ": done by " ++ name)) = texts.str v := by
  simp only [List.mem_cons, List.not_mem_nil, or_false] at hname
  obtain rfl | rfl := hname <;>
    simp [jobOf, String.toList_append, ← String.length_toList]

/-- Every payload weighs the job it is of. -/
def jobWeights : Weights texts (Multiset String) where
  balance := .exact _
  ordered v := {texts.str v}
  handed v := {texts.str v}
  done v := {jobOf texts v}
  kept v := {jobOf texts v}
  spent := 0
  ordered_eq _ := by simp
  handed_eq v name hname := by simp [jobOf_result texts v hname]
  done_eq _ := by simp
  gain a n := by simp [Balance.exact]

/-- A payload weighs the steps that it can still cause. -/
def stepWeights : Weights texts ℕ where
  balance := .atMost _
  ordered _ := 3
  handed _ := 2
  done _ := 1
  kept _ := 0
  spent := 1
  ordered_eq _ := rfl
  handed_eq _ _ _ := rfl
  done_eq _ := rfl
  gain a n := by simp [Balance.atMost]

/-- What lists weigh together, if each weighs its items. -/
theorem sum_coe {α : Type} (l : List α) (f : α → List String) :
    (l.map fun a => (f a : Multiset String)).sum = (l.flatMap f : List String) := by
  induction l with
  | nil => rfl
  | cons a l ih => rw [List.map_cons, List.sum_cons, ih, List.flatMap_cons, Multiset.coe_add]

theorem sum_singleton {α : Type} (l : List α) (f : α → String) :
    (l.map fun a => ({f a} : Multiset String)).sum = (l.map f : List String) := by
  have hsum := sum_coe l fun a => [f a]
  rwa [← List.map_eq_flatMap] at hsum

theorem carried_jobWeights (x : String) (m : Message) :
    (jobWeights texts).stock.carried x m = {jobAt texts x m.payload} := by
  simp only [Weights.stock, Weights.weight, jobWeights, jobAt]
  split
  · rename_i hx
    rw [hx, if_neg (by decide)]
  · split <;> rfl

theorem total_jobWeights (k : Kernel DemoAgent) : (jobWeights texts).stock.total k
    = ((results k).map (jobOf texts) ++ underway texts k : List String) := by
  have hheld : (jobWeights texts).stock.held
      = fun a => Multiset.ofList ((resultsOf a).map (jobOf texts)) := by
    funext a
    have hready : (jobWeights texts).stock.held a = (jobWeights texts).body a.body :=
      (congrArg (· + (jobWeights texts).body a.body) (ite_self 0)).trans (zero_add _)
    rw [hready, resultsOf]
    cases a.body with
    | finished => rfl
    | user s =>
      cases s with
      | dispatcher => rfl
      | worker flaky => cases flaky <;> rfl
      | collector results => exact sum_singleton results (jobOf texts)
  have hbox : (fun e : String × List Message => Tally.box (jobWeights texts).stock.carried e.1 e.2)
      = fun e => Multiset.ofList (e.2.map fun m => jobAt texts e.1 m.payload) := by
    funext e
    rw [Tally.box, funext (carried_jobWeights texts e.1)]
    exact sum_singleton e.2 fun m => jobAt texts e.1 m.payload
  rw [Stock.total, Stock.holdings, Stock.mail_eq, hheld, hbox, sum_coe, sum_coe, Multiset.coe_add,
    results, List.map_flatMap]
  rfl

theorem posted_jobWeights (es : List (Event DemoAgent)) :
    (jobWeights texts).posted es = (orders texts es : List String) := by
  rw [orders, ← sum_coe, Weights.posted]
  congr 1
  refine List.map_congr_left fun e _ => ?_
  cases e with
  | posted log =>
    simp only [Tally.log, carried_jobWeights]
    exact sum_singleton _ _
  | registered | ticked => rfl

theorem posted_stepWeights_le (es : List (Event DemoAgent)) :
    (stepWeights texts).posted es ≤ 3 * (orders texts es).length := by
  induction es with
  | nil => simp [Weights.posted]
  | cons e es ih =>
    rw [Weights.posted, List.map_cons, List.sum_cons, orders, List.flatMap_cons, List.length_append,
      Nat.mul_add]
    refine Nat.add_le_add ?_ ih
    cases e with
    | posted log =>
      have hweight : ∀ n ∈ log.map fun d => (stepWeights texts).stock.carried d.1 d.2, n ≤ 3 := by
        intro n hn
        obtain ⟨d, -, rfl⟩ := List.mem_map.mp hn
        simp only [Weights.stock, Weights.weight, stepWeights]
        split
        · exact Nat.le_refl 3
        · split <;> omega
      simpa [Tally.log, Nat.mul_comm] using List.sum_le_card_nsmul _ 3 hweight
    | registered | ticked => exact Nat.zero_le _

end

end DemoAgent

open DemoAgent

/-- The demo kernel. -/
def demoStart : Kernel DemoAgent := demoKernel.toOption.getD {}

/-- In the second tick `worker-2` fails on the job from outside. -/
def demoOps : List (Op DemoAgent) :=
  [.tick .serial (List.replicate 6 0 ++ List.replicate 3 1 ++ List.replicate 3 2
      ++ List.replicate 4 3),
    .post "user" "worker-2" (.str "scan"),
    .tick .serial (List.replicate 9 0 ++ List.replicate 3 1),
    .tick .serial (List.replicate 5 0 ++ List.replicate 5 1)]

theorem demoOps_accepted : (Kernel.replay (code plainTexts) demoOps demoStart).isSome = true := by
  decide

end TitoOS
