import TitoOS.Kernel.BarrierLaws
import TitoOS.Kernel.Sequential

/-!
# The loop of `run`

`runBy` is `Kernel.run` for any way of executing its ticks, so that the loop is
treated once for all backends; `run_eq_runBy` says that `run` is the one that
executes them serially, and `stepsOn` those of a backend in given orders.

The loop goes on exactly while the kernel is not idle (`runLoopBy_of_idle`,
`runLoopBy_of_busy`), so budgets add up (`runLoopBy_add`). What holds of every
run is proved by induction on the loop (`loop_induction`).
-/

namespace TitoOS

variable {σ : Type}

namespace Kernel

/-! ## Runs on a backend -/

/-- The loop of `Kernel.run` with a budget of `n` ticks, whose `i`-th tick is
executed by `step i`. -/
def runLoopBy (step : Nat → Kernel σ → Kernel σ × Except Exc TickReport) (i : Nat) :
    Nat → Kernel σ → Kernel σ × Except Exc (List TickReport)
  | 0, k => (k.finishRun, .ok [])
  | n + 1, k =>
    if k.liveSnapshot.isEmpty then ({ k with stopReason := some .finished }, .ok [])
    else if k.isQuiescentWith k.liveSnapshot then
      ({ k with stopReason := some .quiescent }, .ok [])
    else
      match step i k with
      | (k', .error e) => (k', .error e)
      | (k', .ok report) =>
        match runLoopBy step (i + 1) n k' with
        | (k'', .error e) => (k'', .error e)
        | (k'', .ok reports) => (k'', .ok (report :: reports))

/-- The kernels at the start of each tick of `runLoopBy`. -/
def ticksLoopBy (step : Nat → Kernel σ → Kernel σ × Except Exc TickReport) (i : Nat) :
    Nat → Kernel σ → List (Kernel σ)
  | 0, _ => []
  | n + 1, k =>
    if k.liveSnapshot.isEmpty then []
    else if k.isQuiescentWith k.liveSnapshot then []
    else k :: match step i k with
      | (_, .error _) => []
      | (k', .ok _) => ticksLoopBy step (i + 1) n k'

/-- `Kernel.run`, whose `i`-th tick is executed by `step i`. -/
def runBy (step : Nat → Kernel σ → Kernel σ × Except Exc TickReport) (maxTicks : Int)
    (k : Kernel σ) : Kernel σ × Except Exc (List TickReport) :=
  if maxTicks < 0 then (k, .error .negativeMaxTicks)
  else runLoopBy step 0 maxTicks.toNat { k with stopReason := some .maxTicks }

/-- The kernels at the start of each tick of `runBy`. -/
def ticksBy (step : Nat → Kernel σ → Kernel σ × Except Exc TickReport) (maxTicks : Int)
    (k : Kernel σ) : List (Kernel σ) :=
  if maxTicks < 0 then []
  else ticksLoopBy step 0 maxTicks.toNat { k with stopReason := some .maxTicks }

theorem runLoop_eq_runLoopBy (code : AgentCode σ) (n i : Nat) (k : Kernel σ) :
    k.runLoop code n = runLoopBy (fun _ => Kernel.step code) i n k := by
  induction n generalizing i k with
  | zero => rfl
  | succ n ih =>
    unfold runLoop runLoopBy
    split
    · rfl
    · split
      · rfl
      · obtain ⟨k', report⟩ := k.step code
        cases report with
        | error e => rfl
        | ok report =>
          have hrest := ih (i + 1) k'
          simp only
          generalize k'.runLoop code n = r at hrest ⊢
          subst hrest
          rfl

/-- `Kernel.run` on `SerialBackend` is such a run. -/
theorem run_eq_runBy (code : AgentCode σ) (maxTicks : Int) (k : Kernel σ) :
    k.run code maxTicks = k.runBy (fun _ => Kernel.step code) maxTicks := by
  unfold run runBy
  rw [runLoop_eq_runLoopBy]

/-- The ticks of a run on the backend `b`, when the atomic actions of its `i`-th
tick happen in the order `scheds i`. -/
def stepsOn (code : AgentCode σ) (b : Backend) (loop : Bool) (scheds : Nat → List Nat) (i : Nat) :
    Kernel σ → Kernel σ × Except Exc TickReport :=
  Kernel.stepWith code b loop (scheds i)

/-- The backend can produce the orders `scheds` in this run. -/
def AllowsRun (code : AgentCode σ) (b : Backend) (loop : Bool) (scheds : Nat → List Nat)
    (maxTicks : Int) (k : Kernel σ) : Prop :=
  ∀ p ∈ (k.ticksBy (stepsOn code b loop scheds) maxTicks).zipIdx,
    p.1.Allows code b loop (scheds p.2)

instance (code : AgentCode σ) (b : Backend) (loop : Bool) (scheds : Nat → List Nat)
    (maxTicks : Int) (k : Kernel σ) : Decidable (k.AllowsRun code b loop scheds maxTicks) :=
  inferInstanceAs (Decidable (∀ p ∈ _, _))

/-! ## Steps and the stop reason -/

/-- A step keeps the stop reason, whether or not it raises. -/
theorem stopReason_stepWith (code : AgentCode σ) (b : Backend) (loop : Bool) (sched : List Nat)
    (k : Kernel σ) : (k.stepWith code b loop sched).1.stopReason = k.stopReason := by
  rcases stepWith_fst_cases code b loop sched k with ⟨sched', heq⟩ | heq
  · rw [heq]
    exact TickState.stopReason_exec code b.isAsync sched' k.beginTick
  · rw [heq, (kept_barrier ..).stopReason]
    exact TickState.stopReason_exec code b.isAsync sched k.beginTick

theorem stopReason_step (code : AgentCode σ) (k : Kernel σ) :
    (k.step code).1.stopReason = k.stopReason := by
  obtain ⟨sched, -, heq⟩ := step_eq_stepWith code k
  rw [← heq, stopReason_stepWith]

/-! ## When the loop stops -/

/-- Nothing is left to run: nobody is alive, or everybody waits without mail. -/
def isIdle (k : Kernel σ) : Bool := k.liveSnapshot.isEmpty || k.isQuiescent

variable {step : Nat → Kernel σ → Kernel σ × Except Exc TickReport} {k : Kernel σ}

@[simp] theorem liveSnapshot_stopped (k : Kernel σ) (reason : Option StopReason) :
    Kernel.liveSnapshot { k with stopReason := reason } = k.liveSnapshot := rfl

@[simp] theorem isQuiescent_stopped (k : Kernel σ) (reason : Option StopReason) :
    Kernel.isQuiescent { k with stopReason := reason } = k.isQuiescent := rfl

@[simp] theorem isIdle_stopped (k : Kernel σ) (reason : Option StopReason) :
    { k with stopReason := reason }.isIdle = k.isIdle := rfl

theorem runLoopBy_of_idle (h : k.isIdle = true) (i n : Nat) :
    runLoopBy step i n k = (k.finishRun, .ok []) := by
  cases n with
  | zero => rfl
  | succ n =>
    unfold runLoopBy finishRun
    by_cases hlive : k.liveSnapshot.isEmpty = true
    · rw [if_pos hlive, if_pos hlive]
    · have hquiet : k.isQuiescentWith k.liveSnapshot = true := by
        simpa [isIdle, isQuiescent, hlive] using h
      rw [if_neg hlive, if_neg hlive, if_pos hquiet, if_pos hquiet]

theorem ticksLoopBy_of_idle (h : k.isIdle = true) (i n : Nat) : ticksLoopBy step i n k = [] := by
  cases n with
  | zero => rfl
  | succ n =>
    unfold ticksLoopBy
    by_cases hlive : k.liveSnapshot.isEmpty = true
    · rw [if_pos hlive]
    · have hquiet : k.isQuiescentWith k.liveSnapshot = true := by
        simpa [isIdle, isQuiescent, hlive] using h
      rw [if_neg hlive, if_pos hquiet]

/-- What a run that has returned is followed by. -/
def followedBy (r : Kernel σ × Except Exc (List TickReport))
    (next : Kernel σ → Kernel σ × Except Exc (List TickReport)) :
    Kernel σ × Except Exc (List TickReport) :=
  match r with
  | (k, .error e) => (k, .error e)
  | (k, .ok reports) =>
    match next k with
    | (k', .error e) => (k', .error e)
    | (k', .ok more) => (k', .ok (reports ++ more))

theorem followedBy_assoc (r : Kernel σ × Except Exc (List TickReport))
    (next next' : Kernel σ → Kernel σ × Except Exc (List TickReport)) :
    followedBy (followedBy r next) next'
      = followedBy r fun k => followedBy (next k) next' := by
  obtain ⟨k, e | reports⟩ := r
  · rfl
  · simp only [followedBy]
    obtain ⟨k', e | more⟩ := next k
    · rfl
    · simp only
      obtain ⟨k'', e | last⟩ := next' k'
      · rfl
      · simp

theorem followedBy_congr {r : Kernel σ × Except Exc (List TickReport)}
    {next next' : Kernel σ → Kernel σ × Except Exc (List TickReport)}
    (h : ∀ k reports, r = (k, .ok reports) → next k = next' k) :
    followedBy r next = followedBy r next' := by
  obtain ⟨k, e | reports⟩ := r
  · rfl
  · simp only [followedBy, h k reports rfl]

/-- One tick, as a run of its own. -/
def oneTick (r : Kernel σ × Except Exc TickReport) : Kernel σ × Except Exc (List TickReport) :=
  (r.1, r.2.map fun report => [report])

/-- The loop of a kernel that is not idle runs one tick and goes on. -/
theorem runLoopBy_of_busy (h : k.isIdle = false) (i n : Nat) :
    runLoopBy step i (n + 1) k = followedBy (oneTick (step i k)) (runLoopBy step (i + 1) n) := by
  obtain ⟨hlive, hquiet⟩ : k.liveSnapshot.isEmpty = false
      ∧ k.isQuiescentWith k.liveSnapshot = false := by
    simpa [isIdle, isQuiescent] using h
  rw [runLoopBy, hlive, hquiet]
  obtain ⟨k', e | report⟩ := step i k
  · rfl
  · show _ = followedBy (k', .ok [report]) _
    simp only [followedBy, Bool.false_eq_true, if_false]
    obtain ⟨k'', e | reports⟩ := runLoopBy step (i + 1) n k'
    · rfl
    · rfl

theorem ticksLoopBy_of_busy (h : k.isIdle = false) (i n : Nat) :
    ticksLoopBy step i (n + 1) k = k :: match step i k with
      | (_, .error _) => []
      | (k', .ok _) => ticksLoopBy step (i + 1) n k' := by
  obtain ⟨hlive, hquiet⟩ : k.liveSnapshot.isEmpty = false
      ∧ k.isQuiescentWith k.liveSnapshot = false := by
    simpa [isIdle, isQuiescent] using h
  rw [ticksLoopBy, hlive, hquiet]
  rfl

/-! ## One tick and the rest -/

section

variable {u : Kernel σ} {e : Exc} {report : TickReport} {i : Nat}

/-- The loop ends with a tick that raises. -/
theorem runLoopBy_of_raises (hidle : k.isIdle = false) (h : step i k = (u, .error e)) (n : Nat) :
    runLoopBy step i (n + 1) k = (u, .error e) := by
  rw [runLoopBy_of_busy hidle, h]
  rfl

/-- And it goes on after one that returns. -/
theorem runLoopBy_of_returns (hidle : k.isIdle = false) (h : step i k = (u, .ok report))
    (n : Nat) : runLoopBy step i (n + 1) k
      = ((runLoopBy step (i + 1) n u).1,
        (runLoopBy step (i + 1) n u).2.map fun reports => report :: reports) := by
  rw [runLoopBy_of_busy hidle, h]
  simp only [oneTick, Except.map, followedBy]
  rcases runLoopBy step (i + 1) n u with ⟨v, e | reports⟩
  · rfl
  · rfl

theorem ticksLoopBy_of_raises (hidle : k.isIdle = false) (h : step i k = (u, .error e))
    (n : Nat) : ticksLoopBy step i (n + 1) k = [k] := by
  rw [ticksLoopBy_of_busy hidle, h]

theorem ticksLoopBy_of_returns (hidle : k.isIdle = false) (h : step i k = (u, .ok report))
    (n : Nat) : ticksLoopBy step i (n + 1) k = k :: ticksLoopBy step (i + 1) n u := by
  rw [ticksLoopBy_of_busy hidle, h]

/-- When the loop returns after a tick, so has the tick, and the rest of the loop. -/
theorem runLoopBy_eq_ok {n : Nat} {reports : List TickReport} (hidle : k.isIdle = false)
    (h : runLoopBy step i (n + 1) k = (u, .ok reports)) :
    ∃ v report more, step i k = (v, .ok report) ∧ runLoopBy step (i + 1) n v = (u, .ok more)
      ∧ reports = report :: more := by
  rcases hstep : step i k with ⟨v, e | report⟩
  · rw [runLoopBy_of_raises hidle hstep] at h
    cases h
  · rw [runLoopBy_of_returns hidle hstep] at h
    rcases hrest : runLoopBy step (i + 1) n v with ⟨w, e | more⟩
    · rw [hrest] at h
      cases h
    · rw [hrest] at h
      cases h
      exact ⟨v, report, more, rfl, hrest, rfl⟩

end

/-- **Induction on the loop**: its budget is spent, nothing is left to run, its
first tick raises, or that returns and the loop goes on. -/
@[elab_as_elim]
theorem loop_induction (step : Nat → Kernel σ → Kernel σ × Except Exc TickReport)
    {motive : Nat → Nat → Kernel σ → Prop} (spent : ∀ i k, motive i 0 k)
    (idle : ∀ i n k, k.isIdle = true → motive i (n + 1) k)
    (raises : ∀ i n k u e, k.isIdle = false → step i k = (u, .error e) → motive i (n + 1) k)
    (returns : ∀ i n k u report, k.isIdle = false → step i k = (u, .ok report) →
      motive (i + 1) n u → motive i (n + 1) k) (i n : Nat) (k : Kernel σ) : motive i n k := by
  induction n generalizing i k with
  | zero => exact spent i k
  | succ n ih =>
    cases hidle : k.isIdle with
    | true => exact idle i n k hidle
    | false =>
      rcases hstep : step i k with ⟨u, e | report⟩
      · exact raises i n k u e hidle hstep
      · exact returns i n k u report hidle hstep (ih (i + 1) u)

/-- Every tick of a run starts in a kernel that is not idle. -/
theorem isIdle_of_mem_ticksLoopBy {i n : Nat} {u : Kernel σ}
    (hu : u ∈ ticksLoopBy step i n k) : u.isIdle = false := by
  induction i, n, k using loop_induction step with
  | spent => cases hu
  | idle i n k hidle =>
    rw [ticksLoopBy_of_idle hidle] at hu
    cases hu
  | raises i n k v e hidle hstep =>
    rw [ticksLoopBy_of_raises hidle hstep] at hu
    rwa [List.mem_singleton.mp hu]
  | returns i n k v report hidle hstep ih =>
    rw [ticksLoopBy_of_returns hidle hstep] at hu
    rcases List.mem_cons.mp hu with rfl | hrest
    · exact hidle
    · exact ih hrest

/-- The reports of a run are those of its ticks. -/
theorem report_of_mem_runLoopBy {i n : Nat} {k' : Kernel σ} {reports : List TickReport}
    (h : runLoopBy step i n k = (k', .ok reports)) {r : TickReport} (hr : r ∈ reports) :
    ∃ p ∈ (ticksLoopBy step i n k).zipIdx i, ∃ u, step p.2 p.1 = (u, .ok r) := by
  induction n generalizing i k reports with
  | zero =>
    cases h
    cases hr
  | succ n ih =>
    cases hidle : k.isIdle with
    | true =>
      rw [runLoopBy_of_idle hidle] at h
      cases h
      cases hr
    | false =>
      obtain ⟨u, report, more, hstep, hrest, rfl⟩ := runLoopBy_eq_ok hidle h
      rw [ticksLoopBy_of_returns hidle hstep, List.zipIdx_cons]
      rcases List.mem_cons.mp hr with rfl | htail
      · exact ⟨(k, i), List.mem_cons_self, u, hstep⟩
      · obtain ⟨p, hp, v, hv⟩ := ih hrest htail
        exact ⟨p, List.mem_cons_of_mem _ hp, v, hv⟩

theorem isIdle_of_mem_ticksBy {maxTicks : Int} {u : Kernel σ} (hu : u ∈ k.ticksBy step maxTicks) :
    u.isIdle = false := by
  unfold ticksBy at hu
  split at hu
  · cases hu
  · exact isIdle_of_mem_ticksLoopBy hu

theorem report_of_mem_runBy {maxTicks : Int} {k' : Kernel σ} {reports : List TickReport}
    (h : k.runBy step maxTicks = (k', .ok reports)) {r : TickReport} (hr : r ∈ reports) :
    ∃ p ∈ (k.ticksBy step maxTicks).zipIdx, ∃ u, step p.2 p.1 = (u, .ok r) := by
  unfold runBy at h
  unfold ticksBy
  split at h
  · cases h
  · rename_i hbudget
    rw [if_neg hbudget]
    exact report_of_mem_runLoopBy h hr

/-! ## Budgets -/

/-- The loop leaves the kernel that ends it as it is, but for the stop reason. -/
theorem finishRun_stopReason_eq (h : k.stopReason = some .maxTicks) :
    { k.finishRun with stopReason := some .maxTicks } = k := by
  obtain ⟨bus, agents, objects, tick, errors, stopReason⟩ := k
  obtain rfl := h
  unfold finishRun
  split
  · rfl
  · split <;> rfl

/-- **Budgets add up**: the loop with a budget of `m + n` ticks is the loop with
a budget of `m`, and then, unless it raised, the one with a budget of `n`. -/
theorem runLoopBy_add (hkeep : ∀ i k, (step i k).1.stopReason = k.stopReason)
    (h : k.stopReason = some .maxTicks) (i m n : Nat) :
    runLoopBy step i (m + n) k = followedBy (runLoopBy step i m k) fun k' =>
      runLoopBy step (i + m) n { k' with stopReason := some .maxTicks } := by
  induction m generalizing i k with
  | zero =>
    show _ = followedBy (k.finishRun, .ok []) _
    simp only [followedBy, finishRun_stopReason_eq h, Nat.zero_add, Nat.add_zero]
    obtain ⟨k', e | reports⟩ := runLoopBy step i n k
    · rfl
    · rfl
  | succ m ih =>
    rw [Nat.succ_add]
    cases hidle : k.isIdle with
    | true =>
      -- the first loop has stopped early, and the second stops at once
      rw [runLoopBy_of_idle hidle, runLoopBy_of_idle hidle]
      simp only [followedBy, finishRun_stopReason_eq h, runLoopBy_of_idle hidle, List.append_nil]
    | false =>
      rw [runLoopBy_of_busy hidle, runLoopBy_of_busy hidle, followedBy_assoc]
      refine followedBy_congr fun u reports hu => ?_
      obtain rfl : (step i k).1 = u := congrArg Prod.fst hu
      rw [ih ((hkeep i k).trans h), Nat.add_right_comm i 1 m, Nat.add_assoc]

/-- The ticks of what follows a run, if that has returned. -/
def ticksAfter (r : Kernel σ × Except Exc (List TickReport)) (next : Kernel σ → List (Kernel σ)) :
    List (Kernel σ) :=
  match r with
  | (_, .error _) => []
  | (k, .ok _) => next k

/-- The ticks of the two loops, one after the other. -/
theorem ticksLoopBy_add (hkeep : ∀ i k, (step i k).1.stopReason = k.stopReason)
    (h : k.stopReason = some .maxTicks) (i m n : Nat) :
    ticksLoopBy step i (m + n) k = ticksLoopBy step i m k
      ++ ticksAfter (runLoopBy step i m k) fun k' =>
        ticksLoopBy step (i + m) n { k' with stopReason := some .maxTicks } := by
  induction m generalizing i k with
  | zero =>
    rw [Nat.zero_add, show runLoopBy step i 0 k = (k.finishRun, .ok []) from rfl]
    simp only [ticksAfter, finishRun_stopReason_eq h, ticksLoopBy, List.nil_append, Nat.add_zero]
  | succ m ih =>
    rw [Nat.succ_add]
    cases hidle : k.isIdle with
    | true =>
      rw [runLoopBy_of_idle hidle, ticksLoopBy_of_idle hidle, ticksLoopBy_of_idle hidle]
      simp only [ticksAfter, finishRun_stopReason_eq h, ticksLoopBy_of_idle hidle,
        List.append_nil]
    | false =>
      have hkept := hkeep i k
      rcases hstep : step i k with ⟨u, e | report⟩
      · rw [runLoopBy_of_raises hidle hstep, ticksLoopBy_of_raises hidle hstep,
          ticksLoopBy_of_raises hidle hstep]
        rfl
      · rw [hstep] at hkept
        rw [runLoopBy_of_returns hidle hstep, ticksLoopBy_of_returns hidle hstep,
          ticksLoopBy_of_returns hidle hstep, ih (hkept.trans h), Nat.add_right_comm i 1 m]
        rcases runLoopBy step (i + 1) m u with ⟨v, e | reports⟩
        · rfl
        · rfl

/-- When every tick is executed alike, its position does not matter. -/
theorem ticksLoopBy_const (f : Kernel σ → Kernel σ × Except Exc TickReport) (n i j : Nat)
    (k : Kernel σ) : ticksLoopBy (fun _ => f) i n k = ticksLoopBy (fun _ => f) j n k := by
  induction n generalizing i j k with
  | zero => rfl
  | succ n ih =>
    unfold ticksLoopBy
    simp only [ih (i + 1) (j + 1)]

/-! ## The stop reason -/

/-- The stop reason says whether another tick could do anything. -/
structure StopReasonExact (k : Kernel σ) : Prop where
  finished : k.stopReason = some .finished ↔ k.liveSnapshot = []
  quiescent : k.stopReason = some .quiescent ↔ k.isQuiescent = true
  maxTicks : k.stopReason = some .maxTicks ↔ k.liveSnapshot ≠ [] ∧ k.isQuiescent = false

theorem stopReasonExact_finishRun (h : k.stopReason = some .maxTicks) :
    k.finishRun.StopReasonExact := by
  unfold finishRun
  by_cases hlive : k.liveSnapshot = []
  · have hquiet : k.isQuiescent = false := by simp [isQuiescent, isQuiescentWith, hlive]
    rw [if_pos (List.isEmpty_iff.mpr hlive)]
    exact ⟨by simp [hlive], by simp [hquiet], by simp [hlive]⟩
  · rw [if_neg (by simpa using hlive), ← isQuiescent]
    by_cases hquiet : k.isQuiescent = true
    · rw [if_pos hquiet]
      exact ⟨by simp [hlive], by simp [hquiet], by simp [hquiet]⟩
    · rw [if_neg hquiet]
      exact ⟨by simp [h, hlive], by simp [h, hquiet], by simp [h, hlive, hquiet]⟩

theorem stopReason_finishRun_of_idle (h : k.isIdle = true) :
    k.finishRun.stopReason ≠ some .maxTicks := by
  unfold finishRun
  split
  · simp
  · rename_i hlive
    rw [if_pos (by simpa [isIdle, isQuiescent, hlive] using h)]
    simp

/-- **Why the loop stopped**, and that it used up its budget if that is why. -/
theorem stopReason_runLoopBy (hkeep : ∀ i k, (step i k).1.stopReason = k.stopReason)
    (h : k.stopReason = some .maxTicks) {i n : Nat} {k' : Kernel σ} {reports : List TickReport}
    (hrun : runLoopBy step i n k = (k', .ok reports)) :
    k'.StopReasonExact ∧ (k'.stopReason = some .maxTicks → reports.length = n) := by
  induction n generalizing i k reports with
  | zero =>
    cases hrun
    exact ⟨stopReasonExact_finishRun h, fun _ => rfl⟩
  | succ n ih =>
    cases hidle : k.isIdle with
    | true =>
      rw [runLoopBy_of_idle hidle] at hrun
      cases hrun
      exact ⟨stopReasonExact_finishRun h,
        fun hmax => absurd hmax (stopReason_finishRun_of_idle hidle)⟩
    | false =>
      obtain ⟨u, report, more, hstep, hrest, rfl⟩ := runLoopBy_eq_ok hidle hrun
      have hstop : u.stopReason = k.stopReason := by
        have hkept := hkeep i k
        rwa [hstep] at hkept
      obtain ⟨hexact, hlength⟩ := ih (hstop.trans h) hrest
      exact ⟨hexact, fun hmax => by rw [List.length_cons, hlength hmax]⟩

end Kernel

end TitoOS
