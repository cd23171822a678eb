import TitoOS.Kernel.Loop

/-!
# The ticks a run completes

`completedBy` lists the reports of the ticks that a run has completed, whether
it returns or raises. `Kernel.run` hands them over only when it returns:
`steady_iff` says when none of them is lost.

Every report bears the number of its tick, which the counter has just passed
(`tick_stepWith`), so no report is like an earlier one. And a step does not look
at the stop reason (`stepWith_stopped`), which is all that tells a tick of a run
from a step by itself.
-/

namespace TitoOS

variable {σ : Type}

/-- The kernel with `reason` for its stop reason. -/
def Kernel.stopped (k : Kernel σ) (reason : Option StopReason) : Kernel σ :=
  { k with stopReason := reason }

/-- The tick of the kernel with `reason` for its stop reason. -/
def TickState.stopped (t : TickState σ) (reason : Option StopReason) : TickState σ :=
  { t with kernel := t.kernel.stopped reason }

namespace Kernel

theorem ctxSend_stopped (k : Kernel σ) (reason : Option StopReason) (name recipient : String)
    (payload : Value) (metadata : Metadata) :
    (k.stopped reason).ctxSend name recipient payload metadata
      = ((k.ctxSend name recipient payload metadata).1.stopped reason,
        (k.ctxSend name recipient payload metadata).2) := by
  unfold ctxSend
  rw [show (k.stopped reason).bus = k.bus from rfl]
  cases k.bus.post name recipient payload metadata with
  | ok bus => rfl
  | error e => rfl

theorem register_stopped (k : Kernel σ) (reason : Option StopReason) (agent : FreshAgent σ)
    (parent : Option String) :
    (k.stopped reason).register agent parent
      = (k.register agent parent).map fun k' => k'.stopped reason := by
  unfold register registerObject
  rw [show (k.stopped reason).agents = k.agents from rfl]
  split <;> rfl

theorem ctxRegister_stopped (k : Kernel σ) (reason : Option StopReason) (agent : FreshAgent σ)
    (parent : Option String) :
    (k.stopped reason).ctxRegister agent parent
      = ((k.ctxRegister agent parent).1.stopped reason, (k.ctxRegister agent parent).2) := by
  unfold ctxRegister
  rw [register_stopped]
  cases k.register agent parent with
  | ok k' => rfl
  | error e => rfl

theorem act_stopped (k : Kernel σ) (reason : Option StopReason) (async : Bool) (ref : Nat)
    (name : String) (calls : List Call) (inbox : List Message) (prog : StepProg σ) :
    (k.stopped reason).act async ref name calls inbox prog
      = ((k.act async ref name calls inbox prog).1.stopped reason,
        (k.act async ref name calls inbox prog).2) := by
  cases prog with
  | send => simp only [act, ctxSend_stopped]
  | broadcast => simp only [act, ctxBroadcast, ctxSend_stopped]
  | spawn | register => simp only [act, ctxRegister_stopped]
  | raise e =>
    simp only [act]
    cases e.isException with
    | true => rfl
    | false => rfl
  | coroutine =>
    cases async with
    | true => rfl
    | false => rfl
  | _ => rfl

theorem moveJob_stopped (code : AgentCode σ) (k : Kernel σ) (reason : Option StopReason)
    (async : Bool) (job : Job σ) :
    (k.stopped reason).moveJob code async job
      = ((k.moveJob code async job).1.stopped reason, (k.moveJob code async job).2) := by
  unfold moveJob
  cases job.phase with
  | pending =>
    simp only [start, stopped]
    cases k.objects[job.ref]? with
    | some a => rfl
    | none => rfl
  | running calls inbox prog => exact act_stopped ..
  | returned | failed | escaped => rfl

end Kernel

namespace TickState

theorem advance_stopped (code : AgentCode σ) (async : Bool) (i : Nat) (t : TickState σ)
    (reason : Option StopReason) :
    (t.stopped reason).advance code async i = (t.advance code async i).stopped reason := by
  cases hi : t.jobs[i]? with
  | none => rw [advance_of_none hi, advance_of_none (t := t.stopped reason) hi]
  | some job =>
    rw [advance_of_some code async hi, advance_of_some (t := t.stopped reason) code async hi]
    simp only [stopped, Kernel.moveJob_stopped]

theorem exec_stopped (code : AgentCode σ) (async : Bool) (sched : List Nat) (t : TickState σ)
    (reason : Option StopReason) :
    (t.stopped reason).exec code async sched = (t.exec code async sched).stopped reason := by
  induction sched generalizing t with
  | nil => rfl
  | cons i rest ih =>
    show ((t.stopped reason).advance code async i).exec code async rest = _
    rw [advance_stopped, ih]
    rfl

end TickState

namespace Kernel

theorem supervise_stopped (code : AgentCode σ) (k : Kernel σ) (reason : Option StopReason)
    (job : Job σ) :
    (k.stopped reason).supervise code job
      = ((k.supervise code job).1.stopped reason, (k.supervise code job).2) := by
  unfold supervise
  simp only [stopped]
  split
  · rfl
  · split
    · split <;> rfl
    · rfl

theorem superviseAll_stopped (code : AgentCode σ) (jobs : List (Job σ)) (k : Kernel σ)
    (reason : Option StopReason) :
    (k.stopped reason).superviseAll code jobs
      = ((k.superviseAll code jobs).1.stopped reason, (k.superviseAll code jobs).2) := by
  induction jobs generalizing k with
  | nil => rfl
  | cons job rest ih =>
    rw [superviseAll, superviseAll, supervise_stopped]
    obtain ⟨k', e | restarted⟩ := k.supervise code job
    · rfl
    · simp only [ih]
      obtain ⟨k'', e | names⟩ := k'.superviseAll code rest
      · rfl
      · rfl

theorem escalate_stopped (k : Kernel σ) (reason : Option StopReason) (ref : Nat) :
    (k.stopped reason).escalate ref = (k.escalate ref).map fun k' => k'.stopped reason := by
  unfold escalate
  rw [show (k.stopped reason).notice ref = k.notice ref from rfl]
  cases k.notice ref with
  | none => rfl
  | some m =>
    show (k.bus.send m).map _ = ((k.bus.send m).map _).map _
    cases k.bus.send m with
    | ok bus => rfl
    | error e => rfl

theorem escalateAll_stopped (jobs : List (Job σ)) (k : Kernel σ) (reason : Option StopReason) :
    (k.stopped reason).escalateAll jobs
      = ((k.escalateAll jobs).1.stopped reason, (k.escalateAll jobs).2) := by
  induction jobs generalizing k with
  | nil => rfl
  | cons job rest ih =>
    rw [escalateAll, escalateAll, escalate_stopped,
      show (k.stopped reason).hasFailed job.ref = k.hasFailed job.ref from rfl]
    split
    · cases k.escalate job.ref with
      | error e => rfl
      | ok k' => exact ih k'
    · exact ih k

theorem reclaim_stopped (k : Kernel σ) (reason : Option StopReason) (job : Job σ) :
    (k.stopped reason).reclaim job = (k.reclaim job).stopped reason := by
  unfold reclaim
  simp only [stopped]
  split
  · split <;> rfl
  · rfl

theorem reclaimAll_stopped (jobs : List (Job σ)) (k : Kernel σ) (reason : Option StopReason) :
    jobs.foldl reclaim (k.stopped reason) = (jobs.foldl reclaim k).stopped reason := by
  induction jobs generalizing k with
  | nil => rfl
  | cons job rest ih => rw [List.foldl_cons, List.foldl_cons, reclaim_stopped, ih]

end Kernel

theorem TickState.barrier_stopped (code : AgentCode σ) (waiting : List String) (t : TickState σ)
    (reason : Option StopReason) :
    (t.stopped reason).barrier code waiting
      = ((t.barrier code waiting).1.stopped reason, (t.barrier code waiting).2) := by
  unfold barrier
  simp only [show (t.stopped reason).kernel = t.kernel.stopped reason from rfl,
    show (t.stopped reason).casualties = t.casualties from rfl, Kernel.superviseAll_stopped]
  obtain ⟨k, e | restarted⟩ := t.kernel.superviseAll code t.casualties
  · rfl
  · simp only [Kernel.escalateAll_stopped]
    obtain ⟨k', e | _⟩ := k.escalateAll t.casualties
    · simp only [show (t.stopped reason).jobs = t.jobs from rfl, Kernel.reclaimAll_stopped]
      rfl
    · rfl

/-- **A step does not look at the stop reason.** -/
theorem Kernel.stepWith_stopped (code : AgentCode σ) (b : Backend) (loop : Bool)
    (sched : List Nat) (k : Kernel σ) (reason : Option StopReason) :
    (k.stopped reason).stepWith code b loop sched
      = ((k.stepWith code b loop sched).1.stopped reason, (k.stepWith code b loop sched).2) := by
  have hrefused : (k.stopped reason).refused code b loop = k.refused code b loop := rfl
  have hexec : (k.stopped reason).beginTick.exec code b.isAsync sched
      = (k.beginTick.exec code b.isAsync sched).stopped reason :=
    TickState.exec_stopped code b.isAsync sched k.beginTick reason
  cases h : k.refused code b loop with
  | some e =>
    rw [stepWith_of_refused (hrefused.trans h), stepWith_of_refused h]
    rfl
  | none =>
    have hraises : b.raises ((k.stopped reason).beginTick.exec code b.isAsync sched)
        = b.raises (k.beginTick.exec code b.isAsync sched) := by
      rw [hexec]
      rfl
    cases h' : b.raises (k.beginTick.exec code b.isAsync sched) with
    | some e =>
      rw [stepWith_of_raises (hrefused.trans h) (hraises.trans h'), stepWith_of_raises h h']
      rw [hexec]
      rfl
    | none =>
      rw [stepWith_of_accepted (hrefused.trans h) (hraises.trans h'), stepWith_of_accepted h h']
      rw [hexec]
      exact TickState.barrier_stopped ..

/-! ## The tick counter -/

theorem Kernel.tick_supervise (code : AgentCode σ) (k : Kernel σ) (job : Job σ) :
    (k.supervise code job).1.tick = k.tick := by
  unfold supervise
  split
  · rfl
  · split
    · dsimp only
      split <;> rfl
    · rfl

theorem Kernel.tick_superviseAll (code : AgentCode σ) (jobs : List (Job σ)) (k : Kernel σ) :
    (k.superviseAll code jobs).1.tick = k.tick :=
  superviseAll_induction (P := fun u => u.tick = k.tick)
    (fun u job _ hu => (u.tick_supervise code job).trans hu) rfl

theorem TickState.tick_barrier (code : AgentCode σ) (waiting : List String) (t : TickState σ) :
    (t.barrier code waiting).1.tick = t.kernel.tick := by
  obtain ⟨bus, hbarrier⟩ := Kernel.barrier_fst code waiting t
  rw [hbarrier]
  exact t.kernel.tick_superviseAll code t.casualties

theorem TickState.tick_exec (code : AgentCode σ) (async : Bool) (sched : List Nat)
    (t : TickState σ) : (t.exec code async sched).kernel.tick = t.kernel.tick := by
  refine kernel_exec (P := fun u => u.tick = t.kernel.tick) (fun u job hu => ?_) rfl sched
  rw [(u.moveJob_effect code async job (r := true) (by simp)).tick_eq, hu]

/-- A step counts its tick, whether or not it raises. -/
theorem Kernel.tick_stepWith (code : AgentCode σ) (b : Backend) (loop : Bool) (sched : List Nat)
    (k : Kernel σ) : (k.stepWith code b loop sched).1.tick = k.tick + 1 := by
  rcases stepWith_fst_cases code b loop sched k with ⟨sched', heq⟩ | heq
  · rw [heq]
    exact TickState.tick_exec code b.isAsync sched' k.beginTick
  · rw [heq, TickState.tick_barrier]
    exact TickState.tick_exec code b.isAsync sched k.beginTick

theorem TickState.tick_of_barrier {code : AgentCode σ} {waiting : List String} {t : TickState σ}
    {k' : Kernel σ} {report : TickReport} (h : t.barrier code waiting = (k', .ok report)) :
    report.tick = t.kernel.tick := by
  unfold barrier at h
  split at h
  · cases h
  · split at h
    · cases h
    · cases h
      rfl

/-- The report of a step that returns bears the number of its tick. -/
theorem Kernel.tick_of_stepWith {code : AgentCode σ} {b : Backend} {loop : Bool}
    {sched : List Nat} {k k' : Kernel σ} {report : TickReport}
    (h : k.stepWith code b loop sched = (k', .ok report)) : report.tick = k.tick + 1 := by
  obtain ⟨-, -, hbarrier⟩ := barrier_of_stepWith h
  exact (TickState.tick_of_barrier hbarrier).trans
    (TickState.tick_exec code b.isAsync sched k.beginTick)

/-! ## Completed ticks -/

namespace Kernel

/-- The reports of the ticks that `runLoopBy` completes. -/
def completedLoopBy (step : Nat → Kernel σ → Kernel σ × Except Exc TickReport) (i n : Nat)
    (k : Kernel σ) : List TickReport :=
  ((ticksLoopBy step i n k).zipIdx i).filterMap fun p => (step p.2 p.1).2.toOption

/-- The reports of the ticks that `runBy` completes. -/
def completedBy (step : Nat → Kernel σ → Kernel σ × Except Exc TickReport) (maxTicks : Int)
    (k : Kernel σ) : List TickReport :=
  (k.ticksBy step maxTicks).zipIdx.filterMap fun p => (step p.2 p.1).2.toOption

/-- No tick of the run raises but its first. -/
def Steady (step : Nat → Kernel σ → Kernel σ × Except Exc TickReport) (maxTicks : Int)
    (k : Kernel σ) : Prop :=
  ∀ p ∈ (k.ticksBy step maxTicks).zipIdx, p.2 ≠ 0 → (step p.2 p.1).2.isOk = true

instance (step : Nat → Kernel σ → Kernel σ × Except Exc TickReport) (maxTicks : Int)
    (k : Kernel σ) : Decidable (k.Steady step maxTicks) :=
  inferInstanceAs (Decidable (∀ p ∈ _, _ → _))

variable {step : Nat → Kernel σ → Kernel σ × Except Exc TickReport} {k k' : Kernel σ}
  {i n : Nat} {e : Exc} {report : TickReport}

theorem completedBy_eq (step : Nat → Kernel σ → Kernel σ × Except Exc TickReport) {maxTicks : Int}
    (h : 0 ≤ maxTicks) (k : Kernel σ) :
    k.completedBy step maxTicks
      = completedLoopBy step 0 maxTicks.toNat (k.stopped (some .maxTicks)) := by
  rw [completedBy, ticksBy, if_neg (by omega)]
  rfl

theorem completedLoopBy_of_idle (h : k.isIdle = true) (i n : Nat) :
    completedLoopBy step i n k = [] := by
  rw [completedLoopBy, ticksLoopBy_of_idle h]
  rfl

theorem completedLoopBy_of_raises (h : step i k = (k', .error e)) (n : Nat) :
    completedLoopBy step i n k = [] := by
  cases hidle : k.isIdle with
  | true => exact completedLoopBy_of_idle hidle i n
  | false =>
    cases n with
    | zero => rfl
    | succ n =>
      rw [completedLoopBy, ticksLoopBy_of_raises hidle h]
      simp [h, Except.toOption]

theorem completedLoopBy_of_returns (hidle : k.isIdle = false) (h : step i k = (k', .ok report))
    (n : Nat) :
    completedLoopBy step i (n + 1) k = report :: completedLoopBy step (i + 1) n k' := by
  rw [completedLoopBy, ticksLoopBy_of_returns hidle h]
  simp [h, Except.toOption, completedLoopBy]

/-- **What a run returns** are the reports of the ticks it has completed. -/
theorem completedLoopBy_of_ok {reports : List TickReport}
    (h : runLoopBy step i n k = (k', .ok reports)) : completedLoopBy step i n k = reports := by
  induction n generalizing i k reports with
  | zero =>
    cases h
    rfl
  | succ n ih =>
    cases hidle : k.isIdle with
    | true =>
      rw [runLoopBy_of_idle hidle] at h
      cases h
      exact completedLoopBy_of_idle hidle i _
    | false =>
      obtain ⟨u, report, more, hstep, hrest, rfl⟩ := runLoopBy_eq_ok hidle h
      rw [completedLoopBy_of_returns hidle hstep, ih hrest]

/-- A run returns exactly when all its ticks do. -/
theorem isOk_runLoopBy_iff : (runLoopBy step i n k).2.isOk = true
    ↔ ∀ p ∈ (ticksLoopBy step i n k).zipIdx i, (step p.2 p.1).2.isOk = true := by
  induction i, n, k using loop_induction step with
  | spent => exact ⟨fun _ p hp => absurd hp List.not_mem_nil, fun _ => rfl⟩
  | idle i n k hidle =>
    rw [runLoopBy_of_idle hidle, ticksLoopBy_of_idle hidle]
    exact ⟨fun _ p hp => absurd hp List.not_mem_nil, fun _ => rfl⟩
  | raises i n k u e hidle hstep =>
    rw [runLoopBy_of_raises hidle hstep, ticksLoopBy_of_raises hidle hstep]
    simp [hstep, Except.isOk, Except.toBool]
  | returns i n k u report hidle hstep ih =>
    rw [runLoopBy_of_returns hidle hstep, ticksLoopBy_of_returns hidle hstep, List.zipIdx_cons,
      List.forall_mem_cons, hstep, ← ih]
    rcases runLoopBy step (i + 1) n u with ⟨v, e | more⟩
    · simp [Except.map, Except.isOk, Except.toBool]
    · simp [Except.map, Except.isOk, Except.toBool]

/-- **When no completed tick is lost**: the run returns, or it has completed none. -/
theorem steadyLoop_iff :
    (∀ p ∈ (ticksLoopBy step i n k).zipIdx i, p.2 ≠ i → (step p.2 p.1).2.isOk = true)
      ↔ (runLoopBy step i n k).2.isOk = true ∨ completedLoopBy step i n k = [] := by
  cases n with
  | zero => exact ⟨fun _ => .inl rfl, fun _ p hp => absurd hp List.not_mem_nil⟩
  | succ n =>
    cases hidle : k.isIdle with
    | true =>
      rw [runLoopBy_of_idle hidle, ticksLoopBy_of_idle hidle]
      exact ⟨fun _ => .inl rfl, fun _ p hp => absurd hp List.not_mem_nil⟩
    | false =>
      rcases hstep : step i k with ⟨u, e | report⟩
      · -- the first tick has raised, and there is no other
        rw [completedLoopBy_of_raises hstep, ticksLoopBy_of_raises hidle hstep]
        simp
      · rw [completedLoopBy_of_returns hidle hstep, isOk_runLoopBy_iff,
          ticksLoopBy_of_returns hidle hstep, List.zipIdx_cons, List.forall_mem_cons,
          List.forall_mem_cons, hstep]
        have hlater : ∀ p ∈ (ticksLoopBy step (i + 1) n u).zipIdx (i + 1), p.2 ≠ i := by
          intro p hp
          have := List.le_snd_of_mem_zipIdx hp
          omega
        constructor
        · exact fun h => .inl ⟨rfl, fun p hp => h.2 p hp (hlater p hp)⟩
        · rintro (h | h)
          · exact ⟨fun hne => absurd rfl hne, fun p hp _ => h.2 p hp⟩
          · cases h

/-- No completed tick is lost exactly when only the first tick of the run may
raise. -/
theorem steady_iff {maxTicks : Int} (h : 0 ≤ maxTicks) : k.Steady step maxTicks
    ↔ (k.runBy step maxTicks).2.isOk = true ∨ k.completedBy step maxTicks = [] := by
  rw [completedBy_eq step h, Steady, ticksBy, runBy, if_neg (by omega), if_neg (by omega)]
  exact steadyLoop_iff

theorem length_ticksLoopBy_le (step : Nat → Kernel σ → Kernel σ × Except Exc TickReport)
    (i n : Nat) (k : Kernel σ) : (ticksLoopBy step i n k).length ≤ n := by
  induction i, n, k using loop_induction step with
  | spent => exact le_rfl
  | idle i n k hidle => simp [ticksLoopBy_of_idle hidle]
  | raises i n k u e hidle hstep => simp [ticksLoopBy_of_raises hidle hstep]
  | returns i n k u report hidle hstep ih =>
    rw [ticksLoopBy_of_returns hidle hstep]
    exact Nat.succ_le_succ ih

/-- A run of one tick loses nothing. -/
theorem steady_of_le_one {maxTicks : Int} (h : maxTicks ≤ 1) : k.Steady step maxTicks := by
  intro p hp hlater
  unfold ticksBy at hp
  split at hp
  · cases hp
  · have hlt := List.snd_lt_of_mem_zipIdx hp
    have hle := length_ticksLoopBy_le step 0 maxTicks.toNat
      { k with stopReason := some .maxTicks }
    omega

theorem completedBy_of_ok {maxTicks : Int} {reports : List TickReport}
    (h : k.runBy step maxTicks = (k', .ok reports)) : k.completedBy step maxTicks = reports := by
  by_cases hneg : maxTicks < 0
  · rw [runBy, if_pos hneg] at h
    cases h
  · rw [runBy, if_neg hneg] at h
    rw [completedBy_eq step (by omega)]
    exact completedLoopBy_of_ok h

/-! ## The numbers of completed ticks -/

/-- Every tick, whether it returns or raises, advances the counter by one, and
its report bears the new number. -/
structure Counts (step : Nat → Kernel σ → Kernel σ × Except Exc TickReport) : Prop where
  advances : ∀ i k, (step i k).1.tick = k.tick + 1
  numbers : ∀ {i k k' report}, step i k = (k', .ok report) → report.tick = k.tick + 1

theorem counts_stepsOn (code : AgentCode σ) (b : Backend) (loop : Bool)
    (scheds : Nat → List Nat) : Counts (stepsOn code b loop scheds) where
  advances i k := tick_stepWith code b loop (scheds i) k
  numbers h := tick_of_stepWith h

theorem tick_finishRun (k : Kernel σ) : k.finishRun.tick = k.tick := by
  unfold finishRun
  split
  · rfl
  · split <;> rfl

/-- The ticks a run completes are numbered between the counter before the run
and the one after it. -/
theorem Counts.completedLoopBy (h : Counts step) (i n : Nat) (k : Kernel σ) :
    k.tick ≤ (runLoopBy step i n k).1.tick
      ∧ ∀ r ∈ completedLoopBy step i n k,
          k.tick < r.tick ∧ r.tick ≤ (runLoopBy step i n k).1.tick := by
  induction i, n, k using loop_induction step with
  | spent i k => exact ⟨k.tick_finishRun.ge, fun r hr => absurd hr List.not_mem_nil⟩
  | idle i n k hidle =>
    rw [runLoopBy_of_idle hidle, completedLoopBy_of_idle hidle]
    exact ⟨k.tick_finishRun.ge, fun r hr => absurd hr List.not_mem_nil⟩
  | raises i n k u e hidle hstep =>
    have hadvance : u.tick = k.tick + 1 := by rw [← h.advances i k, hstep]
    rw [runLoopBy_of_raises hidle hstep, completedLoopBy_of_raises hstep]
    exact ⟨hadvance ▸ Int.le_add_one le_rfl, fun r hr => absurd hr List.not_mem_nil⟩
  | returns i n k u report hidle hstep ih =>
    have hadvance : u.tick = k.tick + 1 := by rw [← h.advances i k, hstep]
    have hnumber := h.numbers hstep
    obtain ⟨hle, hrest⟩ := ih
    rw [runLoopBy_of_returns hidle hstep, completedLoopBy_of_returns hidle hstep]
    dsimp only
    refine ⟨by omega, fun r hr => ?_⟩
    rcases List.mem_cons.mp hr with rfl | hr
    · exact ⟨by omega, by omega⟩
    · have := hrest r hr
      exact ⟨by omega, by omega⟩

theorem Counts.completedBy (h : Counts step) {maxTicks : Int} (hbudget : 0 ≤ maxTicks)
    (k : Kernel σ) :
    k.tick ≤ (k.runBy step maxTicks).1.tick
      ∧ ∀ r ∈ k.completedBy step maxTicks,
          k.tick < r.tick ∧ r.tick ≤ (k.runBy step maxTicks).1.tick := by
  rw [completedBy_eq step hbudget, runBy, if_neg (by omega)]
  exact h.completedLoopBy 0 maxTicks.toNat (k.stopped (some .maxTicks))

theorem completedLoopBy_stopped
    (hstep : ∀ i k reason, step i (k.stopped reason) = ((step i k).1.stopped reason, (step i k).2))
    (i n : Nat) (k : Kernel σ) (reason : Option StopReason) :
    completedLoopBy step i n (k.stopped reason) = completedLoopBy step i n k := by
  induction i, n, k using loop_induction step with
  | spent => rfl
  | idle i n k hidle =>
    rw [completedLoopBy_of_idle hidle, completedLoopBy_of_idle (k := k.stopped reason) hidle]
  | raises i n k u e hidle h =>
    have hboth := hstep i k reason
    rw [h] at hboth
    rw [completedLoopBy_of_raises h, completedLoopBy_of_raises hboth]
  | returns i n k u report hidle h ih =>
    have hboth := hstep i k reason
    rw [h] at hboth
    rw [completedLoopBy_of_returns hidle h,
      completedLoopBy_of_returns (k := k.stopped reason) hidle hboth, ih]

end Kernel

end TitoOS
