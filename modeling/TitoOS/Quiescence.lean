import TitoOS.Kernel.Loop
import TitoOS.Lib.Transition
import TitoOS.Script

/-!
# When nothing can run

`is_quiescent` looks at the states of the live agents and at their mailboxes;
`step` drains the mailboxes and then decides who is scheduled. The two agree
(`isQuiescent_iff`): a quiescent kernel is one with live agents whose next tick
schedules nobody, and such a tick only counts (`stepWith_of_quiescent`). So no
tick of a run is idle, and the budgets of two runs in a row add up to one.
-/

namespace TitoOS

variable {σ : Type}

namespace Kernel

/-! ## Quiescent kernels -/

/-- Everybody who is alive waits, and no mail is pending for them. -/
theorem isQuiescent_eq_true_iff {k : Kernel σ} :
    k.isQuiescent = true ↔ k.liveSnapshot ≠ []
      ∧ (∀ e ∈ k.liveSnapshot, e.2.state = .waiting)
      ∧ k.bus.anyPending (k.liveSnapshot.map fun e => e.2.name) = false := by
  unfold isQuiescent isQuiescentWith
  by_cases hlive : k.liveSnapshot = []
  · simp [hlive]
  · simp [hlive]

/-- Nobody is scheduled when every live agent waits and is drained nothing. -/
theorem scheduled_eq_nil_iff {k : Kernel σ} :
    k.scheduled = [] ↔ (∀ e ∈ k.liveSnapshot, e.2.state = .waiting)
      ∧ k.bus.anyPending (k.liveSnapshot.map fun e => e.2.name) = false := by
  have hlength : k.liveSnapshot.length
      = (k.bus.receiveMany (k.liveSnapshot.map fun e => e.2.name)).1.length := by
    simp
  have hskipped : k.scheduled = [] ↔ ∀ e ∈ k.drained, e.1.2.state = .waiting ∧ e.2 = [] := by
    simp [scheduled, isSkipped]
  have hfst : k.drained.map Prod.fst = k.liveSnapshot := List.map_fst_zip hlength.le
  have hsnd : k.drained.map Prod.snd
      = (k.bus.receiveMany (k.liveSnapshot.map fun e => e.2.name)).1 :=
    List.map_snd_zip hlength.ge
  rw [hskipped, MessageBus.anyPending_eq_false_iff, ← hsnd]
  conv_rhs => rw [← hfst]
  simp only [List.forall_mem_map]
  exact ⟨fun h => ⟨fun e he => (h e he).1, fun e he => (h e he).2⟩,
    fun h e he => ⟨h.1 e he, h.2 e he⟩⟩

theorem beginTick_jobs_eq_nil_iff {k : Kernel σ} : k.beginTick.jobs = [] ↔ k.scheduled = [] := by
  simp [beginTick]

/-- **Quiescence is exact.** -/
theorem isQuiescent_iff {k : Kernel σ} :
    k.isQuiescent = true ↔ k.liveSnapshot ≠ [] ∧ k.beginTick.jobs = [] := by
  rw [isQuiescent_eq_true_iff, beginTick_jobs_eq_nil_iff, scheduled_eq_nil_iff]

/-- An idle kernel has nobody to schedule. -/
theorem beginTick_jobs_ne_nil {k : Kernel σ} (h : k.isIdle = false) : k.beginTick.jobs ≠ [] := by
  intro hjobs
  rw [isIdle, Bool.or_eq_false_iff, List.isEmpty_eq_false_iff] at h
  rw [isQuiescent_iff.mpr ⟨h.1, hjobs⟩] at h
  cases h.2

/-! ## Ticks of a quiescent kernel -/

/-- What the `n`-th tick of a quiescent kernel reports. -/
def idleReport (k : Kernel σ) (n : Nat) : TickReport where
  tick := k.tick + n
  ran := []
  failed := []
  waiting := k.liveSnapshot.map fun e => e.2.name
  restarted := []

/-- A tick that schedules nobody keeps the agents waiting. -/
theorem waitingNames_of_scheduled_nil {k : Kernel σ} (h : k.scheduled = []) :
    k.waitingNames = k.liveSnapshot.map fun e => e.2.name := by
  have hall : ∀ e ∈ k.drained, isSkipped e = true := by
    simpa [scheduled] using h
  have hfst : k.drained.map Prod.fst = k.liveSnapshot := List.map_fst_zip (by simp)
  rw [waitingNames, List.filter_eq_self.mpr hall, ← hfst, List.map_map]
  rfl

/-- The only order in which a tick without jobs can go. -/
theorem allows_of_scheduled_nil (code : AgentCode σ) {k : Kernel σ} (h : k.scheduled = [])
    (b : Backend) (loop : Bool) (sched : List Nat) : k.Allows code b loop sched ↔ sched = [] := by
  have hjobs := beginTick_jobs_eq_nil_iff.mpr h
  have haccepted : k.refused code b loop = none := by
    simp [refused, h, Backend.refuses]
  simp only [Allows, haccepted]
  cases sched with
  | nil => simp [Backend.Legal, TickState.exec, TickState.isComplete, hjobs]
  | cons i rest => simp [Backend.Legal, Backend.mayMove, hjobs]

/-- **A tick of a quiescent kernel only counts.** -/
theorem stepWith_of_quiescent (code : AgentCode σ) {k : Kernel σ} (h : k.isQuiescent = true)
    (b : Backend) (loop : Bool) :
    k.stepWith code b loop [] = ({ k with tick := k.tick + 1 }, .ok (k.idleReport 1)) := by
  have hsched := beginTick_jobs_eq_nil_iff.mp (isQuiescent_iff.mp h).2
  have hbus := MessageBus.receiveMany_of_not_anyPending (isQuiescent_eq_true_iff.mp h).2.2
  have hbegin : k.beginTick = ⟨{ k with tick := k.tick + 1 }, []⟩ := by
    simp [beginTick, hsched, drainedKernel, hbus]
  have haccepted : k.refused code b loop = none := by
    simp [refused, hsched, Backend.refuses]
  have hraises : b.raises (⟨{ k with tick := k.tick + 1 }, []⟩ : TickState σ) = none := by
    simp [Backend.raises]
  simp [stepWith, tickWith, haccepted, hbegin, TickState.exec, hraises, TickState.barrier,
    TickState.casualties, superviseAll, escalateAll, TickState.report, idleReport,
    waitingNames_of_scheduled_nil hsched]

/-- A call of `step`, on a backend that can make the actions of the tick in some
order, with what it returns or raises. -/
def StepsTo (code : AgentCode σ) (k : Kernel σ) (result : Except Exc TickReport) (k' : Kernel σ) :
    Prop :=
  ∃ b loop sched, k.Allows code b loop sched ∧ k.stepWith code b loop sched = (k', result)

/-- **Any number of ticks of a quiescent kernel.** -/
theorem runs_of_quiescent {code : AgentCode σ} {k k' : Kernel σ} (h : k.isQuiescent = true)
    {results : List (Except Exc TickReport)} (hruns : Runs (StepsTo code) k results k') :
    k' = { k with tick := k.tick + results.length }
      ∧ results = (List.range results.length).map fun n => .ok (k.idleReport (n + 1)) := by
  refine Runs.invariant_history (I := fun es u => u = { k with tick := k.tick + es.length }
    ∧ es = (List.range es.length).map fun n => .ok (k.idleReport (n + 1))) ?_ hruns
    ⟨by simp, rfl⟩
  rintro es u e u' ⟨rfl, hes⟩ ⟨b, loop, sched, hallow, hstep⟩
  have hquiet : Kernel.isQuiescent { k with tick := k.tick + es.length } = true := h
  obtain rfl := (allows_of_scheduled_nil code
    (beginTick_jobs_eq_nil_iff.mp (isQuiescent_iff.mp hquiet).2) b loop sched).mp hallow
  rw [stepWith_of_quiescent code hquiet, Prod.mk.injEq] at hstep
  obtain ⟨rfl, rfl⟩ := hstep
  refine ⟨by simp [Int.add_assoc], ?_⟩
  rw [List.length_append, List.length_singleton, List.range_succ, List.map_append, ← hes]
  simp [idleReport, liveSnapshot, Int.add_assoc]

/-! ## Ticks of a run -/

/-- The report of a barrier that does not raise. -/
theorem report_of_barrier {code : AgentCode σ} {waiting : List String} {t : TickState σ}
    {k' : Kernel σ} {report : TickReport} (h : t.barrier code waiting = (k', .ok report)) :
    ∃ restarted, report = t.report waiting restarted := by
  rw [TickState.barrier] at h
  split at h
  · cases h
  · split at h
    · cases h
    · cases h
      exact ⟨_, rfl⟩

/-- Every job of a completed tick is reported as run or as failed. -/
theorem ran_or_failed {t : TickState σ} (hcomplete : t.isComplete = true) (hjobs : t.jobs ≠ [])
    (waiting restarted : List String) :
    (t.report waiting restarted).ran ≠ [] ∨ (t.report waiting restarted).failed ≠ [] := by
  obtain ⟨job, hjob⟩ := List.exists_mem_of_ne_nil _ hjobs
  have hsettled := TickState.isComplete_iff.mp hcomplete job hjob
  cases hp : job.phase with
  | pending | running | escaped => rw [hp] at hsettled; cases hsettled
  | returned calls inbox =>
    left
    have hmem : job ∈ t.jobs.filter fun job => job.phase.isReturned :=
      List.mem_filter.mpr ⟨hjob, by rw [hp]; rfl⟩
    exact List.ne_nil_of_mem (List.mem_map_of_mem hmem)
  | failed calls inbox =>
    right
    have hmem : job ∈ t.casualties := List.mem_filter.mpr ⟨hjob, by rw [hp]; rfl⟩
    exact List.ne_nil_of_mem (List.mem_map_of_mem hmem)

/-- A tick of a kernel that is not idle runs somebody. -/
theorem StepsTo.ran_or_failed {code : AgentCode σ} {k k' : Kernel σ} {report : TickReport}
    (h : StepsTo code k (.ok report) k') (hbusy : k.isIdle = false) :
    report.ran ≠ [] ∨ report.failed ≠ [] := by
  obtain ⟨b, loop, sched, hallow, hstep⟩ := h
  obtain ⟨hrefused, hraises, hbarrier⟩ := barrier_of_stepWith hstep
  obtain ⟨restarted, rfl⟩ := report_of_barrier hbarrier
  refine Kernel.ran_or_failed (isComplete_of_allows hallow hrefused hraises) (fun hnil => ?_) _ _
  have hfixed := TickState.fixed_exec code b.isAsync sched k.beginTick
  rw [hnil, List.map_nil, eq_comm, List.map_eq_nil_iff] at hfixed
  exact beginTick_jobs_ne_nil hbusy hfixed

/-- Every tick of the run is one that a backend can execute. -/
def Executes (code : AgentCode σ) (step : Nat → Kernel σ → Kernel σ × Except Exc TickReport)
    (maxTicks : Int) (k : Kernel σ) : Prop :=
  ∀ p ∈ (k.ticksBy step maxTicks).zipIdx, StepsTo code p.1 (step p.2 p.1).2 (step p.2 p.1).1

/-- The serial run executes its ticks. -/
theorem executes_serial (code : AgentCode σ) (maxTicks : Int) (k : Kernel σ) :
    k.Executes code (fun _ => Kernel.step code) maxTicks := by
  intro p _
  obtain ⟨sched, hallow, heq⟩ := step_eq_stepWith code p.1
  exact ⟨.serial, false, sched, hallow, heq⟩

end Kernel

/-- **Quiescence is exact.** A kernel is quiescent when somebody is alive and the
next tick would schedule nobody. Any number of ticks of a quiescent kernel, on
any backend, change the tick counter only, and report nothing but the waiting
agents. So every tick that a run executes schedules an agent, and every report
of a run has an agent that ran or one that failed. -/
theorem quiescence_exact (code : AgentCode σ) (k : Kernel σ) :
    (k.isQuiescent = true ↔ k.liveSnapshot ≠ [] ∧ k.beginTick.jobs = [])
    ∧ (k.isQuiescent = true →
      (∀ b loop, k.Allows code b loop [])
      ∧ ∀ results k', Runs (Kernel.StepsTo code) k results k' →
        k' = { k with tick := k.tick + results.length }
        ∧ results = (List.range results.length).map fun n => .ok (k.idleReport (n + 1)))
    ∧ ∀ step maxTicks, k.Executes code step maxTicks →
      (∀ p ∈ (k.ticksBy step maxTicks).zipIdx, p.1.beginTick.jobs ≠ []
        ∧ ∀ u report, step p.2 p.1 = (u, .ok report) → report.ran ≠ [] ∨ report.failed ≠ [])
      ∧ ∀ k' reports, k.runBy step maxTicks = (k', .ok reports) →
        ∀ report ∈ reports, report.ran ≠ [] ∨ report.failed ≠ [] := by
  refine ⟨Kernel.isQuiescent_iff, fun h => ⟨fun b loop => ?_, fun results k' hruns =>
    Kernel.runs_of_quiescent h hruns⟩, fun step maxTicks hexec => ?_⟩
  · exact (Kernel.allows_of_scheduled_nil code (Kernel.beginTick_jobs_eq_nil_iff.mp
      (Kernel.isQuiescent_iff.mp h).2) b loop []).mpr rfl
  · have htick : ∀ p ∈ (k.ticksBy step maxTicks).zipIdx, p.1.beginTick.jobs ≠ []
        ∧ ∀ u report, step p.2 p.1 = (u, .ok report) → report.ran ≠ [] ∨ report.failed ≠ [] := by
      intro p hp
      have hbusy := Kernel.isIdle_of_mem_ticksBy (List.fst_mem_of_mem_zipIdx hp)
      refine ⟨Kernel.beginTick_jobs_ne_nil hbusy, fun u report hstep => ?_⟩
      have hp' := hexec p hp
      rw [hstep] at hp'
      exact hp'.ran_or_failed hbusy
    refine ⟨htick, fun k' reports hrun report hmem => ?_⟩
    obtain ⟨p, hp, u, hstep⟩ := Kernel.report_of_mem_runBy hrun hmem
    exact (htick p hp).2 u report hstep

/-- A kernel with one agent, which waits for mail. -/
def waiterOps : List (Op Script) := [.register (Script.agent "waiter" (by decide) [.wait]) none]

theorem waiterOps_accepted : (Kernel.replay scripted waiterOps {}).isSome = true := by decide

def waiter : Kernel Script := ((Kernel.replay scripted waiterOps {}).get waiterOps_accepted).2

/-- The waiting agent runs once; then the kernel is quiescent, and a step on the
event loop counts a tick. -/
theorem quiescence_exact_waiter :
    Kernel.isQuiescent (waiter.step scripted).1 = true
    ∧ ((waiter.step scripted).1.stepWith scripted .async false []).1
      = { (waiter.step scripted).1 with tick := (waiter.step scripted).1.tick + 1 }
    ∧ ∀ report ∈ (waiter.run scripted 3).2.toOption.getD [],
        report.ran ≠ [] ∨ report.failed ≠ [] := by
  have hquiet : Kernel.isQuiescent (waiter.step scripted).1 = true := by decide
  have hidle := (quiescence_exact scripted (waiter.step scripted).1).2.1 hquiet
  have hruns : Runs (Kernel.StepsTo scripted) (waiter.step scripted).1
      ([] ++ [((waiter.step scripted).1.stepWith scripted .async false []).2])
      ((waiter.step scripted).1.stepWith scripted .async false []).1 :=
    Runs.nil.snoc ⟨.async, false, [], hidle.1 .async false, rfl⟩
  refine ⟨hquiet, (hidle.2 _ _ hruns).1, ?_⟩
  have htick :=
    (quiescence_exact scripted waiter).2.2 _ 3 (Kernel.executes_serial scripted 3 waiter)
  rw [Kernel.run_eq_runBy]
  generalize waiter.runBy (fun _ => Kernel.step scripted) 3 = r at htick
  obtain ⟨k', e | reports⟩ := r
  · exact fun report hmem => nomatch hmem
  · exact htick.2 k' reports rfl

/-- **Tick budgets compose.** On `SerialBackend`, `run(m)` followed by `run(n)`
goes as `run(m + n)`: the same ticks, the same kernel at the end with the same
stop reason, and the reports one after the other; if a tick raises, `run(m + n)`
raises there, too. After a run the stop reason says why no further tick would be
run, and MAX_TICKS that the budget was used up. -/
theorem tick_budgets_compose (code : AgentCode σ) (k : Kernel σ) (m n : Nat) :
    k.run code ((m + n : Nat) : Int)
      = Kernel.followedBy (k.run code (m : Int)) (fun k' => k'.run code (n : Int))
    ∧ k.ticksBy (fun _ => Kernel.step code) ((m + n : Nat) : Int)
      = k.ticksBy (fun _ => Kernel.step code) (m : Int)
        ++ Kernel.ticksAfter (k.run code (m : Int)) (fun k' =>
          k'.ticksBy (fun _ => Kernel.step code) (n : Int))
    ∧ ∀ k' reports, k.run code (m : Int) = (k', .ok reports) →
        k'.StopReasonExact ∧ (k'.stopReason = some .maxTicks → reports.length = m) := by
  have hkeep : ∀ (_ : Nat) (u : Kernel σ), (u.step code).1.stopReason = u.stopReason :=
    fun _ u => Kernel.stopReason_step code u
  have hrun : ∀ (l : Nat) (u : Kernel σ), u.run code (l : Int)
      = Kernel.runLoopBy (fun _ => Kernel.step code) 0 l
          { u with stopReason := some .maxTicks } := by
    intro l u
    rw [Kernel.run_eq_runBy]
    simp [Kernel.runBy]
  have hticks : ∀ (l : Nat) (u : Kernel σ), u.ticksBy (fun _ => Kernel.step code) (l : Int)
      = Kernel.ticksLoopBy (fun _ => Kernel.step code) 0 l
          { u with stopReason := some .maxTicks } := by
    intro l u
    simp [Kernel.ticksBy]
  simp only [hrun, hticks]
  refine ⟨?_, ?_, fun k' reports h => Kernel.stopReason_runLoopBy hkeep rfl h⟩
  · rw [Kernel.runLoopBy_add hkeep rfl]
    simp only [← Kernel.runLoop_eq_runLoopBy]
  · rw [Kernel.ticksLoopBy_add hkeep rfl]
    simp only [Kernel.ticksLoopBy_const _ n (0 + m) 0]

/-- The budget is used up by the first run, and the second one finds the kernel
quiescent. -/
theorem tick_budgets_compose_waiter :
    (waiter.run scripted (1 : Nat)).1.StopReasonExact
    ∧ waiter.run scripted ((1 + 2 : Nat) : Int)
      = Kernel.followedBy (waiter.run scripted (1 : Nat)) fun k' => k'.run scripted (2 : Nat) := by
  have hok : waiter.run scripted (1 : Nat)
      = ((waiter.run scripted (1 : Nat)).1, .ok [⟨1, ["waiter"], [], [], []⟩]) := by decide
  exact ⟨((tick_budgets_compose scripted waiter 1 2).2.2 _ _ hok).1,
    (tick_budgets_compose scripted waiter 1 2).1⟩

end TitoOS
