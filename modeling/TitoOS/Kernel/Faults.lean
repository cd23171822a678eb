import TitoOS.Kernel.Loop

/-!
# What a step may raise

`Kernel.step` catches what an agent's step raises as long as it is an
`Exception`. What leaves it nevertheless comes from one of five places
(`stepWith_fault`), and what leaves `run` from the same, or from the check of its
budget.
-/

namespace TitoOS

variable {σ : Type}

/-- An exception that may leave `Kernel.step`. -/
inductive StepFault (code : AgentCode σ) : Exc → Prop
  /-- a synchronous backend refuses an async agent -/
  | asyncAgent {name backend : String} : StepFault code (.asyncAgent name backend)
  /-- `AsyncBackend` inside a running event loop -/
  | runningLoop : StepFault code .runningLoop
  /-- a `BaseException` of a step -/
  | escaped {e : Exc} (h : e.isException = false) : StepFault code e
  /-- `on_restart` -/
  | hook {s : σ} {a : Agent σ} {e : Exc} (h : (code.onRestart s a).2 = some e) : StepFault code e
  /-- the escalation to a parent without a mailbox -/
  | unknownRecipient {recipient : String} {known : List String} :
      StepFault code (.unknownRecipient recipient known)

variable {code : AgentCode σ} {k k' : Kernel σ} {e : Exc}

theorem Backend.refuses_fault {b : Backend} {loop : Bool} {agents : List (Agent σ)}
    (h : b.refuses code loop agents = some e) : StepFault code e := by
  unfold refuses at h
  split at h
  · split at h
    · cases h
    · split at h
      · cases h; exact .runningLoop
      · cases h
  · obtain ⟨a, -, rfl⟩ := Option.map_eq_some_iff.mp h
    exact .asyncAgent

/-! ## Escaped steps -/

/-- What has left the step of the job, if anything, is no `Exception`. -/
def Job.EscapesBase (job : Job σ) : Prop :=
  ∀ e, job.phase.escaped? = some e → e.isException = false

theorem Kernel.moveJob_escapesBase (code : AgentCode σ) (k : Kernel σ) (async : Bool) {job : Job σ}
    (hjob : job.EscapesBase) :
    Job.EscapesBase { job with phase := (k.moveJob code async job).2 } := by
  intro e h
  dsimp only at h
  unfold moveJob at h
  cases hphase : job.phase with
  | pending =>
    simp only [hphase, start] at h
    split at h <;> cases h
  | running calls inbox p =>
    simp only [hphase] at h
    cases p with
    | raise x =>
      -- `except Exception` lets through what is none
      simp only [act] at h
      cases hx : x.isException with
      | true => simp [hx, Phase.escaped?] at h
      | false =>
        simp only [hx, Bool.false_eq_true, if_false, Phase.escaped?, Option.some.injEq] at h
        exact h ▸ hx
    | coroutine body => cases async <;> cases h
    | _ => cases h
  | returned | failed => simp only [hphase] at h; cases h
  | escaped x => exact hjob e (by simpa [hphase] using h)

/-- No job of a tick is left by an `Exception`. -/
theorem TickState.escapesBase_exec (code : AgentCode σ) (async : Bool) (sched : List Nat)
    (k : Kernel σ) : ∀ job ∈ (k.beginTick.exec code async sched).jobs, job.EscapesBase := by
  refine forall_exec (P := Job.EscapesBase) (fun job hjob e he => ?_)
    (fun u job => u.moveJob_escapesBase code async) sched
  obtain ⟨entry, -, rfl⟩ := List.mem_map.mp hjob
  cases he

theorem Backend.isException_of_raises {b : Backend} {t : TickState σ}
    (ht : ∀ job ∈ t.jobs, job.EscapesBase) (h : b.raises t = some e) : e.isException = false := by
  unfold raises at h
  split at h
  · obtain ⟨job, hjob, he⟩ := List.exists_of_findSome?_eq_some h
    exact ht job hjob e he
  · obtain ⟨job, hjob, he⟩ := Option.bind_eq_some_iff.mp h
    exact ht job (List.mem_of_find?_eq_some hjob) e he

/-! ## The barrier -/

theorem restartOf_fault {a : Agent σ} (h : (code.restartOf a).2 = some e) : StepFault code e := by
  unfold AgentCode.restartOf at h
  split at h
  · exact .hook h
  · cases h

namespace Kernel

theorem supervise_fault {job : Job σ} (h : k.supervise code job = (k', .error e)) :
    StepFault code e := by
  unfold supervise at h
  split at h
  · cases h
  · rename_i a _
    split at h
    · dsimp only at h
      split at h
      · rename_i body raised hrestart
        cases h
        exact restartOf_fault (congrArg Prod.snd hrestart)
      · cases h
    · cases h

theorem superviseAll_fault {casualties : List (Job σ)}
    (h : superviseAll code casualties k = (k', .error e)) : StepFault code e := by
  induction casualties generalizing k k' with
  | nil => cases h
  | cons job rest ih =>
    unfold superviseAll at h
    split at h
    · rename_i raised hjob
      cases h
      exact supervise_fault hjob
    · split at h
      · rename_i raised hrest
        cases h
        exact ih hrest
      · cases h

theorem escalate_fault {ref : Nat} (h : k.escalate ref = .error e) : StepFault code e := by
  unfold escalate at h
  split at h
  · cases h
  · rename_i m _
    unfold MessageBus.send at h
    split at h
    · cases h
    · split at h
      · cases h
      · cases h
        exact .unknownRecipient

theorem escalateAll_fault {casualties : List (Job σ)}
    (h : escalateAll casualties k = (k', some e)) : StepFault code e := by
  induction casualties generalizing k k' with
  | nil => cases h
  | cons job rest ih =>
    unfold escalateAll at h
    split at h
    · split at h
      · rename_i raised hjob
        cases h
        exact escalate_fault hjob
      · exact ih h
    · exact ih h

end Kernel

theorem TickState.barrier_fault {t : TickState σ} {waiting : List String}
    (h : t.barrier code waiting = (k', .error e)) : StepFault code e := by
  unfold barrier at h
  split at h
  · rename_i hsupervise
    cases h
    exact Kernel.superviseAll_fault hsupervise
  · split at h
    · rename_i hescalate
      cases h
      exact Kernel.escalateAll_fault hescalate
    · cases h

/-! ## Steps and runs -/

namespace Kernel

/-- **What leaves a step** is a fault. -/
theorem stepWith_fault {b : Backend} {loop : Bool} {sched : List Nat}
    (h : k.stepWith code b loop sched = (k', .error e)) : StepFault code e := by
  cases hrefused : k.refused code b loop with
  | some raised =>
    rw [stepWith_of_refused hrefused] at h
    cases h
    exact Backend.refuses_fault hrefused
  | none =>
    cases hraises : b.raises (k.beginTick.exec code b.isAsync sched) with
    | some raised =>
      rw [stepWith_of_raises hrefused hraises] at h
      cases h
      exact .escaped (Backend.isException_of_raises
        (TickState.escapesBase_exec code b.isAsync sched k) hraises)
    | none =>
      rw [stepWith_of_accepted hrefused hraises] at h
      exact TickState.barrier_fault h

/-- What leaves the loop of a run has left one of its ticks. -/
theorem exists_of_runLoopBy {step : Nat → Kernel σ → Kernel σ × Except Exc TickReport} {i n : Nat}
    (h : runLoopBy step i n k = (k', .error e)) : ∃ j u v, step j u = (v, .error e) := by
  induction i, n, k using loop_induction step with
  | spent => cases h
  | idle i n k hidle =>
    rw [runLoopBy_of_idle hidle] at h
    cases h
  | raises i n k u raised hidle hstep =>
    rw [runLoopBy_of_raises hidle hstep] at h
    cases h
    exact ⟨i, k, _, hstep⟩
  | returns i n k u report hidle hstep ih =>
    rw [runLoopBy_of_returns hidle hstep] at h
    rcases hrest : runLoopBy step (i + 1) n u with ⟨v, raised | reports⟩
    · rw [hrest] at h
      cases h
      exact ih hrest
    · rw [hrest] at h
      cases h

/-- What leaves a run with a budget that is not negative is a fault. -/
theorem runBy_fault {b : Backend} {loop : Bool} {scheds : Nat → List Nat} {maxTicks : Int}
    (hbudget : 0 ≤ maxTicks)
    (h : k.runBy (stepsOn code b loop scheds) maxTicks = (k', .error e)) : StepFault code e := by
  rw [runBy, if_neg (by omega)] at h
  obtain ⟨j, u, v, hstep⟩ := exists_of_runLoopBy h
  exact stepWith_fault hstep

end Kernel

end TitoOS
