import TitoOS.Kernel.Roster

/-!
# Scripted agents and replayed runs

`scripted` is the code of agents that make a fixed list of `Context` calls in
every step, enough to write down a concrete run. `Kernel.replay` executes a
list of operations on a kernel; what it accepts is a run (`Kernel.replay_run`).
-/

namespace TitoOS

/-! ## Scripts -/

/-- One thing a scripted agent does in its step. -/
inductive Action where
  | send (recipient text : String)
  | broadcast (text : String)
  | wait
  | exit
  | fail (text : String)
  | interrupt
  deriving DecidableEq

/-- What a scripted agent does in each step. -/
structure Script where
  actions : List Action := []
  async : Bool := false
  deriving DecidableEq

/-- The step that performs the actions. A refused send ends it. -/
def Script.prog : List Action → StepProg Script
  | [] => .ret
  | .send recipient text :: rest => .send recipient (.str text) ∅ fun
      | .ok () => prog rest
      | .error e => .raise e
  | .broadcast text :: rest => .broadcast (.str text) ∅ (prog rest)
  | .wait :: rest => .wait (prog rest)
  | .exit :: rest => .exit (prog rest)
  | .fail text :: _ => .raise (.raised "RuntimeError" text)
  | .interrupt :: _ => .raise (.base "KeyboardInterrupt" "")

/-- The code of scripted agents. -/
def scripted : AgentCode Script where
  step s _ _ _ := Script.prog s.actions
  onRestart s _ := (s, none)
  isAsync s := s.async
  kind _ := "Script"
  saveState _ := ∅
  loadState s _ := .ok s

/-- What holds of the calls a script can make holds all through it. -/
theorem Script.prog_every {P : StepProg Script → Prop} (hret : P .ret) (hraise : ∀ e, P (.raise e))
    (hsend : ∀ r p m rest, P (.send r p m rest)) (hbroadcast : ∀ p m rest, P (.broadcast p m rest))
    (hwait : ∀ rest, P (.wait rest)) (hexit : ∀ rest, P (.exit rest)) (actions : List Action) :
    (prog actions).Every P := by
  induction actions with
  | nil => exact hret
  | cons action rest ih =>
    cases action with
    | send recipient text =>
      refine ⟨hsend .., fun answer _ => ?_⟩
      cases answer with
      | ok => exact ih
      | error e => exact hraise e
    | broadcast text => exact ⟨hbroadcast .., ih⟩
    | wait => exact ⟨hwait _, ih⟩
    | exit => exact ⟨hexit _, ih⟩
    | fail | interrupt => exact hraise _

theorem Script.prog_contextOnly (actions : List Action) : (prog actions).ContextOnly :=
  prog_every trivial (fun _ => trivial) (fun _ _ _ _ => trivial) (fun _ _ _ => trivial)
    (fun _ => trivial) (fun _ => trivial) actions

theorem Script.prog_catchable {actions : List Action} (h : Action.interrupt ∉ actions) :
    (prog actions).Catchable := by
  induction actions with
  | nil => trivial
  | cons action rest ih =>
    simp only [List.mem_cons, not_or] at h
    have hrest := ih h.2
    cases action with
    | send recipient text =>
      refine ⟨trivial, fun answer hanswer => ?_⟩
      cases answer with
      | ok => exact hrest
      | error e => exact hanswer e rfl
    | broadcast | wait | exit => exact ⟨trivial, hrest⟩
    | fail => rfl
    | interrupt => exact absurd rfl h.1

theorem scripted_contextOnly : scripted.ContextOnly :=
  fun s _ _ _ => Script.prog_contextOnly s.actions

/-- A new agent with a script. -/
def Script.agent (name : String) (name_ne : name ≠ "") (actions : List Action)
    (restartPolicy : RestartPolicy := .never) : FreshAgent Script where
  name
  name_ne
  body := .user { actions }
  restartPolicy
  fresh_state := rfl
  fresh_restarts := rfl

namespace Script

/-! What several runs use: names that are not empty, and two workers. -/

theorem a_ne : "a" ≠ "" := by decide

theorem worker_ne : "worker" ≠ "" := by decide

theorem sink_ne : "sink" ≠ "" := by decide

theorem first_ne : "first" ≠ "" := by decide

theorem second_ne : "second" ≠ "" := by decide

theorem two_workers : 1 ≤ 2 := by decide

end Script

/-! ## Replaying a run -/

variable {σ : Type}

/-- An operation on a kernel, with the order of actions of a tick spelled out. -/
inductive Op (σ : Type) where
  | register (agent : FreshAgent σ) (parent : Option String)
  | post (sender recipient : String) (payload : Value)
  | tick (backend : Backend) (sched : List Nat)

/-- The operation as an act from outside. -/
def Op.act : Op σ → Act σ
  | .register a p => .register a p
  | .post s r p => .post s r p ∅
  | .tick b sched => .step b false sched

namespace Kernel

/-- Perform one operation, if the kernel accepts it. -/
def perform (code : AgentCode σ) (k : Kernel σ) : Op σ → Option (Event σ × Kernel σ)
  | .register a p => match k.register a p with
    | .ok k' => some (.registered a p, k')
    | .error _ => none
  | .post s r p => match k.busPost s r p ∅ with
    | .ok k' => some (.posted (k.bus.deliveries ⟨s, r, p, ∅⟩), k')
    | .error _ => none
  | .tick b sched =>
    if k.Allows code b false sched then
      match k.stepWith code b false sched with
      | (k', .ok report) =>
        some (.ticked (k.tickWith code b false sched) (k.stepLog code b false sched) report, k')
      | (_, .error _) => none
    else none

theorem perform_next {code : AgentCode σ} {k k' : Kernel σ} {op : Op σ} {e : Event σ}
    (h : k.perform code op = some (e, k')) : Next code k e k' := by
  unfold perform at h
  split at h
  · split at h
    · cases h; exact .register ‹_›
    · cases h
  · split at h
    · cases h; exact .post ‹_›
    · cases h
  · split at h
    · split at h
      · cases h; exact .tick ‹_› ‹_›
      · cases h
    · cases h

/-- Perform operations from the first to the last. -/
def replay (code : AgentCode σ) : List (Op σ) → Kernel σ → Option (List (Event σ) × Kernel σ)
  | [], k => some ([], k)
  | op :: rest, k =>
    match k.perform code op with
    | none => none
    | some (e, k') => (replay code rest k').map fun r => (e :: r.1, r.2)

/-- What is replayed is a run. -/
theorem replay_run {code : AgentCode σ} {ops : List (Op σ)} {k : Kernel σ}
    {r : List (Event σ) × Kernel σ} (h : replay code ops k = some r) :
    Kernel.Run code k r.1 r.2 := by
  induction ops generalizing k r with
  | nil => cases h; exact .nil
  | cons op rest ih =>
    rw [replay] at h
    split at h
    · cases h
    · rename_i e k' hop
      obtain ⟨r', hr', rfl⟩ := Option.map_eq_some_iff.mp h
      have := Runs.append (Runs.nil.snoc (perform_next hop)) (ih hr')
      simpa using this

/-- What is replayed registers nobody whom no operation registers. -/
theorem not_registered_of_replay {code : AgentCode σ} {ops : List (Op σ)} {k : Kernel σ}
    {r : List (Event σ) × Kernel σ} (h : replay code ops k = some r)
    (hops : ∀ a p, .register a p ∉ ops) (a : FreshAgent σ) (p : Option String) :
    .registered a p ∉ r.1 := by
  induction ops generalizing k r with
  | nil => cases h; simp
  | cons op rest ih =>
    rw [replay] at h
    split at h
    · cases h
    · rename_i e k' hop
      obtain ⟨r', hr', rfl⟩ := Option.map_eq_some_iff.mp h
      have hrest := ih hr' fun a p hmem => hops a p (List.mem_cons_of_mem _ hmem)
      rw [List.mem_cons, not_or]
      refine ⟨?_, hrest⟩
      rintro rfl
      cases op with
      | register b q => exact hops b q List.mem_cons_self
      | post | tick =>
        unfold perform at hop
        grind

theorem stepWith_of_isOk {code : AgentCode σ} {k : Kernel σ} {b : Backend} {loop : Bool}
    {sched : List Nat} (h : (k.stepWith code b loop sched).2.isOk = true) :
    ∃ report, k.stepWith code b loop sched = ((k.stepWith code b loop sched).1, .ok report) := by
  generalize k.stepWith code b loop sched = r at h
  obtain ⟨k', report | report⟩ := r
  · cases h
  · exact ⟨report, rfl⟩

theorem perform_settles {code : AgentCode σ} {k k' : Kernel σ} {op : Op σ} {e : Event σ}
    (h : k.perform code op = some (e, k')) :
    k.Performs code op.act k' ∧ k.Settles code op.act := by
  unfold perform at h
  split at h
  · split at h
    · cases h; exact ⟨‹_›, trivial⟩
    · cases h
  · split at h
    · cases h; exact ⟨‹_›, trivial⟩
    · cases h
  · split at h
    · split at h
      · rename_i hstep
        cases h
        exact ⟨⟨‹_›, by rw [hstep]⟩, .inl (by rw [hstep]; rfl)⟩
      · cases h
    · cases h

/-- What is replayed leaves the kernel between two ticks. -/
theorem replay_settles {code : AgentCode σ} {ops : List (Op σ)} {k : Kernel σ}
    {r : List (Event σ) × Kernel σ} (h : replay code ops k = some r) :
    Runs (fun (k : Kernel σ) act k' => k.Performs code act k' ∧ k.Settles code act) k
      (ops.map Op.act) r.2 := by
  induction ops generalizing k r with
  | nil => cases h; exact .nil
  | cons op rest ih =>
    rw [replay] at h
    split at h
    · cases h
    · rename_i e k' hop
      obtain ⟨r', hr', rfl⟩ := Option.map_eq_some_iff.mp h
      have hrest := ih hr'
      exact .cons (perform_settles hop) hrest

theorem reached_of_replay {code : AgentCode σ} {ops : List (Op σ)}
    (h : (replay code ops {}).isSome = true) :
    Reached code (ops.map Op.act) ((replay code ops {}).get h).2 :=
  replay_settles (Option.some_get h).symm

/-- A replay that goes through, as a run. -/
theorem run_of_replay {code : AgentCode σ} {ops : List (Op σ)} {k : Kernel σ}
    (h : (replay code ops k).isSome = true) :
    Kernel.Run code k ((replay code ops k).get h).1 ((replay code ops k).get h).2 :=
  replay_run (Option.some_get h).symm

end Kernel

/-! ## A tick that is refused -/

/-- A worker with mail and an agent with an `async` step. -/
def mixedOps : List (Op Script) :=
  [.register (Script.agent "worker" Script.worker_ne []) none,
   .register { Script.agent "poller" (by decide) [] with body := .user { async := true } } none,
   .post "user" "worker" (.str "job")]

theorem mixedOps_accepted : (Kernel.replay scripted mixedOps {}).isSome = true := by decide

def mixed : Kernel Script := ((Kernel.replay scripted mixedOps {}).get mixedOps_accepted).2

end TitoOS
