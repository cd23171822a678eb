import Mathlib.Data.List.Induction
import TitoOS.Kernel.Step

/-!
# What one action can do

Every atomic action of a tick changes the kernel in one of seven ways
(`Effect`), and `moveJob_effect` classifies them once and for all. The
invariants of a tick are proved against this list and never unfold `act`.
The state of an agent object during its step is a function of the calls the
step has made (`Phase.state?`).
-/

namespace TitoOS

variable {σ : Type}

/-! ## Small laws of the kernel's tables -/

namespace FreshAgent

@[simp] theorem linked_name (a : FreshAgent σ) (p : Option String) :
    (a.linked p).name = a.name := by cases p <;> rfl

@[simp] theorem linked_state (a : FreshAgent σ) (p : Option String) :
    (a.linked p).state = .ready := by cases p <;> exact a.fresh_state

@[simp] theorem linked_restarts (a : FreshAgent σ) (p : Option String) :
    (a.linked p).restarts = 0 := by cases p <;> exact a.fresh_restarts

end FreshAgent

namespace Kernel

@[simp] theorem modifyAgent_bus (k : Kernel σ) (r : Nat) (f : Agent σ → Agent σ) :
    (k.modifyAgent r f).bus = k.bus := rfl

@[simp] theorem modifyAgent_agents (k : Kernel σ) (r : Nat) (f : Agent σ → Agent σ) :
    (k.modifyAgent r f).agents = k.agents := rfl

@[simp] theorem modifyAgent_tick (k : Kernel σ) (r : Nat) (f : Agent σ → Agent σ) :
    (k.modifyAgent r f).tick = k.tick := rfl

@[simp] theorem modifyAgent_errors (k : Kernel σ) (r : Nat) (f : Agent σ → Agent σ) :
    (k.modifyAgent r f).errors = k.errors := rfl

@[simp] theorem length_modifyAgent (k : Kernel σ) (r : Nat) (f : Agent σ → Agent σ) :
    (k.modifyAgent r f).objects.length = k.objects.length := by simp [modifyAgent]

theorem getElem?_modifyAgent (k : Kernel σ) (r : Nat) (f : Agent σ → Agent σ) (i : Nat) :
    (k.modifyAgent r f).objects[i]? = if i = r then k.objects[i]?.map f else k.objects[i]? := by
  by_cases h : i = r
  · subst h; simp [modifyAgent]
  · simp [modifyAgent, h, Ne.symm h]

/-- A registration succeeds exactly for an unused name, and then adds one
object, one registry entry and one mailbox. -/
theorem registerObject_eq_ok_iff {k k' : Kernel σ} {a : Agent σ} :
    k.registerObject a = .ok k' ↔ a.name ∉ k.agents.keys ∧
      k' = { k with
        objects := k.objects ++ [a]
        agents := k.agents.set a.name k.objects.length
        bus := k.bus.register a.name } := by
  unfold registerObject
  by_cases h : a.name ∈ k.agents.keys
  · simp [h]
  · simp only [Dict.contains_iff, h, if_false, Except.ok.injEq, not_false_eq_true, true_and]
    exact eq_comm

theorem register_eq_ok_iff {k k' : Kernel σ} {a : FreshAgent σ} {p : Option String} :
    k.register a p = .ok k' ↔ a.name ∉ k.agents.keys ∧
      k' = { k with
        objects := k.objects ++ [a.linked p]
        agents := k.agents.set a.name k.objects.length
        bus := k.bus.register a.name } := by
  rw [register, registerObject_eq_ok_iff, FreshAgent.linked_name]

theorem register_eq_error_iff {k : Kernel σ} {a : FreshAgent σ} {p : Option String} {e : Exc} :
    k.register a p = .error e ↔ a.name ∈ k.agents.keys ∧ e = .alreadyRegistered a.name := by
  unfold register registerObject
  rw [FreshAgent.linked_name]
  by_cases h : a.name ∈ k.agents.keys
  · simp only [Dict.contains_iff, h, if_true, Except.error.injEq, true_and]
    exact eq_comm
  · simp [h]

end Kernel

/-! ## The state of an agent during its step -/

/-- The effect of one call on the lifecycle state of the calling agent. -/
def Call.apply (s : AgentState) : Call → AgentState
  | .wait => .waiting
  | .exit => .done
  | _ => s

/-- The lifecycle state of an agent after the calls its step has made. -/
def stateAfter (calls : List Call) : AgentState := calls.foldl Call.apply .running

@[simp] theorem stateAfter_nil : stateAfter [] = .running := rfl

theorem stateAfter_append (calls : List Call) (c : Call) :
    stateAfter (calls ++ [c]) = c.apply (stateAfter calls) := by
  simp [stateAfter]

/-- A step that has called neither `wait` nor `exit` is RUNNING, and no other
is. -/
theorem stateAfter_eq_running_iff (calls : List Call) :
    stateAfter calls = .running ↔ Call.wait ∉ calls ∧ Call.exit ∉ calls := by
  induction calls using List.reverseRecOn with
  | nil => simp
  | append_singleton calls c ih =>
    rw [stateAfter_append]
    cases c <;> simp [Call.apply, ih]

/-- The calls of a step never leave its agent FAILED or READY. -/
theorem stateAfter_cases (calls : List Call) :
    stateAfter calls = .running ∨ stateAfter calls = .waiting ∨ stateAfter calls = .done := by
  induction calls using List.reverseRecOn with
  | nil => simp
  | append_singleton calls c ih =>
    rw [stateAfter_append]
    cases c <;> simp [Call.apply, ih]

/-- `_run_agent`'s normalisation after a normal return. -/
def AgentState.settled (s : AgentState) : AgentState := if s = .running then .ready else s

theorem AgentState.settled_ne_running (s : AgentState) : s.settled ≠ .running := by
  cases s <;> simp [AgentState.settled]

/-- The lifecycle state of an agent whose step has got to a phase. -/
def Phase.state? : Phase σ → Option AgentState
  | .pending => none
  | .running calls .. => some (stateAfter calls)
  | .returned calls _ => some (stateAfter calls).settled
  | .failed .. => some .failed
  | .escaped _ calls _ => some (stateAfter calls)

/-- The step has begun and has not ended. -/
def Phase.isInside : Phase σ → Bool
  | .running .. | .escaped .. => true
  | _ => false

/-- A phase that has begun says what state its agent is in. -/
theorem Phase.exists_state? {p : Phase σ} (h : p.isPending = false) : ∃ s, p.state? = some s := by
  cases p with
  | pending => cases h
  | running | returned | failed | escaped => exact ⟨_, rfl⟩

theorem Phase.not_isPending_of_isSettled {p : Phase σ} (h : p.isSettled = true) :
    p.isPending = false := by
  cases p with
  | pending | running | escaped => cases h
  | returned | failed => rfl

theorem Phase.not_isPending_of_isReturned {p : Phase σ} (h : p.isReturned = true) :
    p.isPending = false ∧ p.isRunning = false := by
  cases p with
  | pending | running | failed | escaped => cases h
  | returned => exact ⟨rfl, rfl⟩

theorem Phase.not_isPending_of_isFailed {p : Phase σ} (h : p.isFailed = true) :
    p.isPending = false ∧ p.isRunning = false ∧ p.isReturned = false := by
  cases p with
  | pending | running | returned | escaped => cases h
  | failed => exact ⟨rfl, rfl, rfl⟩

theorem Phase.not_isPending_of_escaped {p : Phase σ} (h : (p.escaped?).isSome = true) :
    p.isPending = false ∧ p.isRunning = false ∧ p.isReturned = false := by
  cases p with
  | pending | running | returned | failed => cases h
  | escaped => exact ⟨rfl, rfl, rfl⟩

/-- A phase inside a step has the state its calls say. -/
theorem Phase.state?_of_isInside {p : Phase σ} (h : p.isInside = true) :
    p.state? = some (stateAfter p.calls) := by
  cases p <;> simp_all [isInside, state?, calls]

/-- A phase with a RUNNING agent is inside the step. -/
theorem Phase.isInside_of_state? {p : Phase σ} (h : p.state? = some .running) :
    p.isInside = true ∧ stateAfter p.calls = .running := by
  cases p with
  | pending => cases h
  | failed => cases h
  | returned calls inbox => exact absurd (Option.some.inj h) (AgentState.settled_ne_running _)
  | running calls | escaped _ calls => exact ⟨rfl, Option.some.inj h⟩

/-! ## The classification -/

/-- Two versions of one agent object: a step changes its state and its own
attributes, nothing else. -/
def Agent.SameAgent (a b : Agent σ) : Prop := b = { a with state := b.state, body := b.body }

theorem Agent.SameAgent.refl (a : Agent σ) : a.SameAgent a := rfl

theorem Agent.SameAgent.trans {a b c : Agent σ} (h : a.SameAgent b) (h' : b.SameAgent c) :
    a.SameAgent c := by
  unfold SameAgent at *
  rw [h', h]

/-- The ways in which an action of the agent object at `ref`, named `name`, can
change the kernel, with what it appends to mailboxes and to the error log.
Only an action with `removes` set takes a name out of the registry or the bus. -/
inductive Effect (k : Kernel σ) (ref : Nat) (name : String) :
    (removes : Bool) → List Delivery → List (String × Exc) → Kernel σ → Prop where
  | quiet {r} : Effect k ref name r [] [] k
  | own {r} (f : Agent σ → Agent σ) : (∀ a : Agent σ, a.SameAgent (f a)) →
      Effect k ref name r [] [] (k.modifyAgent ref f)
  | fail {r} (e : Exc) : Effect k ref name r [] [(name, e)] (k.recordFailure ref name e)
  | send {r} (m : Message) (bus : MessageBus) : m.sender = name → k.bus.send m = .ok bus →
      Effect k ref name r (k.bus.deliveries m) [] { k with bus }
  | register {r} (a : FreshAgent σ) (p : Option String) : a.name ∉ k.agents.keys →
      Effect k ref name r [] [] { k with
        objects := k.objects ++ [a.linked p]
        agents := k.agents.set a.name k.objects.length
        bus := k.bus.register a.name }
  | popAgent (n : String) : Effect k ref name true [] [] (k.popAgent n)
  | dropMailbox (n : String) : Effect k ref name true [] [] (k.dropMailbox n)

/-- What is left of a job's step uses the methods of `Context` only. -/
def Job.ContextOnly (job : Job σ) : Prop :=
  match job.phase with
  | .running _ _ rest => rest.ContextOnly
  | _ => True

/-- Every agent's step uses the methods of `Context` only. -/
def AgentCode.ContextOnly (code : AgentCode σ) : Prop :=
  ∀ s a tick inbox, (code.step s a tick inbox).ContextOnly

theorem AgentCode.ContextOnly.stepOf {code : AgentCode σ} (h : code.ContextOnly) (a : Agent σ)
    (tick : Int) (inbox : List Message) : (code.stepOf a tick inbox).ContextOnly := by
  unfold AgentCode.stepOf
  split
  · exact h ..
  · trivial

namespace Kernel

private theorem ctxSend_effect {r : Bool} (k : Kernel σ) (ref : Nat) (name recipient : String)
    (payload : Value) (metadata : Metadata) :
    Effect k ref name r (k.bus.deliveries { sender := name, recipient, payload, metadata }) []
      (k.ctxSend name recipient payload metadata).1 := by
  unfold ctxSend MessageBus.post
  split
  · exact .send _ _ rfl ‹_›
  · rw [MessageBus.deliveries_of_error ‹_›]
    exact .quiet

private theorem ctxRegister_effect {r : Bool} (k : Kernel σ) (ref : Nat) (name : String)
    (a : FreshAgent σ) (p : Option String) :
    Effect k ref name r [] [] (k.ctxRegister a p).1 := by
  unfold ctxRegister
  split
  · obtain ⟨hnew, rfl⟩ := register_eq_ok_iff.mp ‹_›
    exact .register a p hnew
  · exact .quiet

theorem ctxSend_answers (k : Kernel σ) (name recipient : String) (payload : Value)
    (metadata : Metadata) : StepProg.Answers (k.ctxSend name recipient payload metadata).2 := by
  intro e he
  unfold ctxSend MessageBus.post MessageBus.send at he
  split at he
  · cases he
  · rename_i hsend
    cases he
    split at hsend
    · cases hsend
    · split at hsend
      · cases hsend
      · cases hsend
        rfl

theorem ctxRegister_answers (k : Kernel σ) (a : FreshAgent σ) (p : Option String) :
    StepProg.Answers (k.ctxRegister a p).2 := by
  intro e he
  unfold ctxRegister at he
  split at he
  · cases he
  · rename_i hreg
    cases he
    rw [(register_eq_error_iff.mp hreg).2]
    rfl

/-- **The classification of actions.** A job that uses the methods of `Context`
only removes nothing. -/
theorem moveJob_effect (code : AgentCode σ) (k : Kernel σ) (async : Bool) (job : Job σ)
    {r : Bool} (hr : r = false → job.ContextOnly) :
    Effect k job.ref job.name r (k.moveDeliveries job) job.moveFailures
      (k.moveJob code async job).1 := by
  unfold moveJob moveDeliveries Job.moveFailures
  unfold Job.ContextOnly at hr
  cases hp : job.phase with
  | pending =>
    simp only [start]
    split
    · exact .own _ fun a => rfl
    · exact .quiet
  | returned | failed | escaped => exact .quiet
  | running calls inbox rest =>
    rw [hp] at hr
    have hsettle : Effect k job.ref job.name r [] [] (k.settle job.ref) := by
      refine .own _ fun a => ?_
      by_cases h : a.state = .running <;> simp [h, Agent.SameAgent]
    cases rest with
    | ret => exact hsettle
    | raise e =>
      simp only [act]
      split
      · exact .fail e
      · exact .quiet
    | coroutine body =>
      simp only [act]
      split
      · exact .quiet
      · exact hsettle
    | store s rest => exact .own _ fun a => rfl
    | inbox messages rest => exact .quiet
    | send recipient payload metadata rest => exact ctxSend_effect ..
    | broadcast payload metadata rest => exact ctxSend_effect ..
    | spawn child rest => exact ctxRegister_effect ..
    | wait rest => exact .own _ fun a => rfl
    | exit rest => exact .own _ fun a => rfl
    | register a p rest => exact ctxRegister_effect ..
    | unregister n rest =>
      -- these two are not among the calls of a Context
      cases r with
      | true => exact .popAgent n
      | false => exact absurd (hr rfl).1 id
    | dropMailbox n rest =>
      cases r with
      | true => exact .dropMailbox n
      | false => exact absurd (hr rfl).1 id

/-- The step of a job goes on using the methods of `Context` only. -/
theorem moveJob_contextOnly {code : AgentCode σ} (hcode : code.ContextOnly) (k : Kernel σ)
    (async : Bool) {job : Job σ} (h : job.ContextOnly) :
    Job.ContextOnly { job with phase := (k.moveJob code async job).2 } := by
  unfold Job.ContextOnly moveJob at *
  cases hp : job.phase with
  | pending =>
    simp only [start]
    cases k.objects[job.ref]? with
    | none => trivial
    | some a => exact hcode.stepOf ..
  | returned | failed | escaped => trivial
  | running calls inbox rest =>
    rw [hp] at h
    cases rest with
    | ret => trivial
    | raise e =>
      simp only [act]
      cases e.isException <;> trivial
    | coroutine body =>
      cases async
      · trivial
      · exact h.2
    | store | broadcast | wait | exit => exact h.2
    | inbox | unregister | dropMailbox => exact absurd h.1 id
    | register => exact absurd h.1 id
    | send => exact h.2 _ (ctxSend_answers _ _ _ _ _)
    | spawn => exact h.2 _ (ctxRegister_answers _ _ _)

/-- A step that uses the methods of `Context` only leaves its inbox list alone. -/
theorem moveJob_handedBack (code : AgentCode σ) (k : Kernel σ) (async : Bool) {job : Job σ}
    (h : job.ContextOnly) :
    Job.handedBack { job with phase := (k.moveJob code async job).2 } = job.handedBack := by
  unfold Job.ContextOnly at h
  unfold Job.handedBack moveJob
  cases hp : job.phase with
  | pending =>
    simp only [start]
    cases k.objects[job.ref]? <;> rfl
  | returned | failed | escaped => rfl
  | running calls inbox rest =>
    rw [hp] at h
    cases rest with
    | raise e =>
      simp only [act]
      cases e.isException <;> rfl
    | coroutine body => cases async <;> rfl
    | inbox => exact absurd h.1 id
    | _ => rfl

theorem objects_ctxSend (k : Kernel σ) (name recipient : String) (payload : Value)
    (metadata : Metadata) : (k.ctxSend name recipient payload metadata).1.objects = k.objects := by
  unfold ctxSend
  split <;> rfl

theorem getElem?_ctxRegister {k : Kernel σ} {ref : Nat} {a : Agent σ}
    (h : k.objects[ref]? = some a) (agent : FreshAgent σ) (p : Option String) :
    (k.ctxRegister agent p).1.objects[ref]? = some a := by
  unfold ctxRegister
  split
  · obtain ⟨-, rfl⟩ := register_eq_ok_iff.mp ‹_›
    obtain ⟨hlt, -⟩ := List.getElem?_eq_some_iff.mp h
    rw [List.getElem?_append_left hlt, h]
  · exact h

/-- **The state of a moving job**: if the agent object is in the state its phase
says, it is so after the move. A pending job starts RUNNING. -/
theorem moveJob_state (code : AgentCode σ) {k : Kernel σ} (async : Bool) {job : Job σ}
    {a : Agent σ} (ha : k.objects[job.ref]? = some a)
    (hs : ∀ s, job.phase.state? = some s → a.state = s) :
    ∃ a', (k.moveJob code async job).1.objects[job.ref]? = some a'
      ∧ (k.moveJob code async job).2.state? = some a'.state := by
  have hupd : ∀ f : Agent σ → Agent σ,
      (k.modifyAgent job.ref f).objects[job.ref]? = some (f a) := by
    intro f
    simp [getElem?_modifyAgent, ha]
  unfold moveJob
  cases hp : job.phase with
  | pending =>
    simp only [start, ha]
    exact ⟨_, hupd _, rfl⟩
  | returned calls inbox => exact ⟨a, ha, by simp [hs _ (by rw [hp]; rfl), Phase.state?]⟩
  | failed calls inbox => exact ⟨a, ha, by simp [hs _ (by rw [hp]; rfl), Phase.state?]⟩
  | escaped e calls inbox => exact ⟨a, ha, by simp [hs _ (by rw [hp]; rfl), Phase.state?]⟩
  | running calls inbox rest =>
    have hrun : a.state = stateAfter calls := hs _ (by rw [hp]; rfl)
    -- a step that has not set the state itself leaves the agent READY
    have hsettle : ∃ a', (k.settle job.ref).objects[job.ref]? = some a'
        ∧ some (stateAfter calls).settled = some a'.state := by
      refine ⟨_, hupd _, ?_⟩
      by_cases h : a.state = .running <;> simp [← hrun, h, AgentState.settled]
    cases rest with
    | ret => exact hsettle
    | raise e =>
      simp only [act]
      split
      · exact ⟨_, hupd _, rfl⟩
      · exact ⟨a, ha, by simp [Phase.state?, hrun]⟩
    | coroutine body =>
      simp only [act]
      split
      · exact ⟨a, ha, by simp [Phase.state?, hrun]⟩
      · exact hsettle
    | store s rest => exact ⟨_, hupd _, by simp [act, Phase.state?, hrun]⟩
    | inbox messages rest => exact ⟨a, ha, by simp [act, Phase.state?, hrun]⟩
    | send recipient payload metadata rest =>
      exact ⟨a, by simpa [act, objects_ctxSend] using ha,
        by simp [act, Phase.state?, stateAfter_append, Call.apply, hrun]⟩
    | broadcast payload metadata rest =>
      exact ⟨a, by simpa [act, ctxBroadcast, objects_ctxSend] using ha,
        by simp [act, Phase.state?, stateAfter_append, Call.apply, hrun]⟩
    | spawn child rest =>
      exact ⟨a, getElem?_ctxRegister ha ..,
        by simp [act, Phase.state?, stateAfter_append, Call.apply, hrun]⟩
    | wait rest =>
      exact ⟨_, hupd _, by simp [act, Phase.state?, stateAfter_append, Call.apply]⟩
    | exit rest =>
      exact ⟨_, hupd _, by simp [act, Phase.state?, stateAfter_append, Call.apply]⟩
    | register agent p rest =>
      exact ⟨a, getElem?_ctxRegister ha ..,
        by simp [act, Phase.state?, stateAfter_append, Call.apply, hrun]⟩
    | unregister n rest =>
      exact ⟨a, ha, by simp [act, Phase.state?, stateAfter_append, Call.apply, hrun]⟩
    | dropMailbox n rest => exact ⟨a, ha, by simp [act, Phase.state?, hrun]⟩

end Kernel

/-- The step of a job has failed after a move if it had before or if the move
records a failure. -/
theorem Kernel.moveJob_isFailed (code : AgentCode σ) (k : Kernel σ) (async : Bool) (job : Job σ) :
    (k.moveJob code async job).2.isFailed
      = (job.phase.isFailed || !job.moveFailures.isEmpty) := by
  unfold moveJob Job.moveFailures
  cases job.phase with
  | pending =>
    simp only [start]
    split <;> rfl
  | returned | failed | escaped => rfl
  | running calls inbox rest =>
    cases rest with
    | raise e =>
      simp only [act]
      cases e.isException <;> rfl
    | coroutine body => cases async <;> rfl
    | _ => rfl

/-! ## Frames -/

namespace Effect

variable {k k' : Kernel σ} {ref : Nat} {name : String} {out : List Delivery}
  {fails : List (String × Exc)} {r : Bool}

theorem tick_eq (h : Effect k ref name r out fails k') : k'.tick = k.tick := by
  cases h <;> rfl

theorem errors_eq (h : Effect k ref name r out fails k') : k'.errors = k.errors ++ fails := by
  cases h <;> simp [Kernel.recordFailure, Kernel.popAgent, Kernel.dropMailbox]

theorem stopReason_eq (h : Effect k ref name r out fails k') : k'.stopReason = k.stopReason := by
  cases h <;> rfl

/-- No object is lost, every other object is untouched, and the acting one keeps
everything but its state and its own attributes. -/
theorem object (h : Effect k ref name r out fails k') {i : Nat} {a : Agent σ}
    (ha : k.objects[i]? = some a) :
    ∃ a', k'.objects[i]? = some a' ∧ a.SameAgent a' ∧ (i ≠ ref → a' = a) := by
  have hmod : ∀ f : Agent σ → Agent σ, (∀ a : Agent σ, a.SameAgent (f a)) →
      ∃ a', (k.modifyAgent ref f).objects[i]? = some a' ∧ a.SameAgent a' ∧ (i ≠ ref → a' = a) := by
    intro f hf
    by_cases hi : i = ref
    · exact ⟨f a, by simp [Kernel.getElem?_modifyAgent, hi, hi ▸ ha], hf a, fun h => absurd hi h⟩
    · exact ⟨a, by simp [Kernel.getElem?_modifyAgent, hi, ha], .refl a, fun _ => rfl⟩
  cases h with
  | quiet => exact ⟨a, ha, .refl a, fun _ => rfl⟩
  | own f hf => exact hmod f hf
  | fail e => exact hmod _ fun a => rfl
  | send m bus hm hs => exact ⟨a, ha, .refl a, fun _ => rfl⟩
  | register b p hnew =>
    obtain ⟨hlt, -⟩ := List.getElem?_eq_some_iff.mp ha
    exact ⟨a, by rw [List.getElem?_append_left hlt, ha], .refl a, fun _ => rfl⟩
  | popAgent n => exact ⟨a, ha, .refl a, fun _ => rfl⟩
  | dropMailbox n => exact ⟨a, ha, .refl a, fun _ => rfl⟩

/-- An object that was not there before is a fresh agent. -/
theorem fresh_object (h : Effect k ref name r out fails k') {i : Nat} {a : Agent σ}
    (hi : k.objects.length ≤ i) (ha : k'.objects[i]? = some a) :
    a.state = .ready ∧ a.restarts = 0 := by
  have hnone : k.objects[i]? = none := List.getElem?_eq_none hi
  cases h with
  | register b p hnew =>
    rw [List.getElem?_append_right hi, List.getElem?_singleton] at ha
    split at ha
    · cases ha; simp
    · cases ha
  | own f hf => simp [Kernel.getElem?_modifyAgent, hnone] at ha
  | fail e => simp [Kernel.recordFailure, Kernel.setState, Kernel.getElem?_modifyAgent, hnone] at ha
  | quiet | send | popAgent | dropMailbox => exact absurd (hnone.symm.trans ha) (by simp)

/-- A registry entry after an action was there before, or is the agent object
the action has just registered. -/
theorem registry (h : Effect k ref name r out fails k') {x : String} {i : Nat}
    (hx : k'.agents.get? x = some i) :
    k.agents.get? x = some i ∨
      (k.agents.get? x = none ∧ i = k.objects.length
        ∧ ∃ a, k'.objects[i]? = some a ∧ a.name = x) := by
  cases h with
  | register b p hnew =>
    rw [Dict.get?_set] at hx
    split at hx
    · rename_i hxn
      cases hx
      exact .inr ⟨Dict.get?_eq_none_iff.mpr (hxn ▸ hnew), rfl, b.linked p, by simp, by simp [hxn]⟩
    · exact .inl hx
  | popAgent n =>
    simp only [Kernel.popAgent, Dict.get?_erase] at hx
    split at hx
    · cases hx
    · exact .inl hx
  | quiet | own | fail | send | dropMailbox => exact .inl hx

/-- An action that removes nothing keeps every registry entry. -/
theorem registered (h : Effect k ref name false out fails k') {x : String} {i : Nat}
    (hx : k.agents.get? x = some i) : k'.agents.get? x = some i := by
  cases h with
  | register a p hnew =>
    have hne : x ≠ a.name := fun he => hnew (he ▸ Dict.mem_keys_of_get? hx)
    rw [Dict.get?_set_ne _ _ hne, hx]
  | quiet | own | fail | send => exact hx

theorem length_le (h : Effect k ref name r out fails k') :
    k.objects.length ≤ k'.objects.length := by
  cases h <;> simp [Kernel.recordFailure, Kernel.setState, Kernel.popAgent, Kernel.dropMailbox]

end Effect

end TitoOS
