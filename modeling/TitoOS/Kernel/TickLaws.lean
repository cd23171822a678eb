import TitoOS.Kernel.BarrierLaws

/-!
# Laws of a whole tick

What a completed tick of Context-only agents leaves behind (`TickOutcome`): the
objects of the scheduled agents as their own step and their own restart policy
say, all others untouched, and every mailbox as a concatenation of what was put
back, what the tick delivered and what the barrier posted.
-/

namespace TitoOS

variable {σ : Type}

/-- The object of a job after the barrier: restarted if its step failed and its
policy allows it, as the step left it otherwise. -/
def Job.concluded (code : AgentCode σ) (job : Job σ) (a : Agent σ) : Agent σ :=
  if job.phase.isFailed && Kernel.mayRestart a then Kernel.restarted code a else a

@[simp] theorem Job.concluded_name (code : AgentCode σ) (job : Job σ) (a : Agent σ) :
    (job.concluded code a).name = a.name := by
  unfold Job.concluded
  split <;> rfl

/-- No agent that failed in the tick and is to be restarted has an `on_restart`
that raises. -/
def TickState.HooksReturn (code : AgentCode σ) (t : TickState σ) : Prop :=
  ∀ job ∈ t.casualties, ∀ a, t.kernel.objects[job.ref]? = some a →
    Kernel.mayRestart a = true → Kernel.restartReturns code a

/-- `k'` is what the tick `t`, which started from `k`, leaves behind. -/
structure TickOutcome (code : AgentCode σ) (k : Kernel σ) (t : TickState σ) (k' : Kernel σ)
    (names : List String) : Prop where
  agents : k'.agents = t.kernel.agents
  tick : k'.tick = k.tick + 1
  errors : k'.errors = t.kernel.errors
  stopReason : k'.stopReason = k.stopReason
  length : k'.objects.length = t.kernel.objects.length
  job : ∀ job ∈ t.jobs, ∀ a, t.kernel.objects[job.ref]? = some a →
    k'.objects[job.ref]? = some (job.concluded code a)
  others : ∀ i, (∀ job ∈ t.jobs, job.ref ≠ i) → k'.objects[i]? = t.kernel.objects[i]?
  restarted : names = (t.casualties.filter t.kernel.willRestart).map Job.name
  /-- The barrier posts the notices, to those they are meant for. -/
  posted : ∀ x, deliveredTo x (t.barrierLog code) = if x ∈ t.kernel.bus.mailboxes.keys
    then (k'.notices t.casualties).filter fun m => decide (m.addresses x) else []
  /-- A finished agent loses its mailbox; any other mailbox has its requeued
  inbox put in front and the notices appended. -/
  box : ∀ x, k'.bus.mailboxes.get? x
    = if ∃ job ∈ t.jobs, job.name = x ∧ k'.isFinishedAt job = true then none
      else (t.kernel.bus.mailboxes.get? x).map fun mailbox =>
        t.kernel.requeued t.casualties x ++ (mailbox ++ deliveredTo x (t.barrierLog code))

theorem TickState.casualties_sublist (t : TickState σ) : t.casualties.Sublist t.jobs :=
  List.filter_sublist

/-! ## Ticks of any agents -/

namespace InTick

variable {k : Kernel σ} {t : TickState σ}

theorem jobs (h : InTick k t) (hwf : k.Wf) : t.kernel.Jobs t.jobs where
  refs := h.refs_nodup hwf
  names := h.names_nodup hwf
  object := fun job hjob => by
    obtain ⟨a, ho, hname, -⟩ := h.job_object hwf hjob
    exact ⟨a, ho, hname⟩

theorem casualties (h : InTick k t) (hwf : k.Wf) : t.kernel.Jobs t.casualties :=
  (h.jobs hwf).sublist t.casualties_sublist

/-- What the supervision pass makes of each job's object. -/
theorem concluded_of_supervised (h : InTick k t) (hwf : k.Wf)
    {code : AgentCode σ} {k1 : Kernel σ} {names : List String}
    (hs : Kernel.Supervised code t.kernel t.casualties k1 names) {job : Job σ}
    (hjob : job ∈ t.jobs) {a : Agent σ} (ha : t.kernel.objects[job.ref]? = some a) :
    k1.objects[job.ref]? = some (job.concluded code a) := by
  unfold Job.concluded
  by_cases hf : job.phase.isFailed = true
  · rw [hs.casualty job (List.mem_filter.mpr ⟨hjob, hf⟩) a ha]
    by_cases hm : Kernel.mayRestart a = true <;> simp [hf, hm]
  · have hother : ∀ job' ∈ t.casualties, job'.ref ≠ job.ref := fun job' hmem href =>
      hf (h.isFailed_of_casualty hwf hjob hmem href)
    rw [hs.others _ hother, ha]
    simp [hf]

/-- What the three passes leave behind, once restarts are through and the bus
accepts every notice. -/
theorem outcome_of_supervised (h : InTick k t) (hwf : k.Wf) {code : AgentCode σ} {k1 : Kernel σ}
    {names : List String} (hsup : t.kernel.superviseAll code t.casualties = (k1, .ok names))
    (hs : Kernel.Supervised code t.kernel t.casualties k1 names)
    (hmail : ∀ m ∈ k1.notices t.casualties, k1.bus.Accepts m) (waiting : List String) :
    ∃ k', t.barrier code waiting = (k', .ok (t.report waiting names))
      ∧ TickOutcome code k t k' names := by
  obtain ⟨bus2, hesc, hkeys2, hbox2, hposted⟩ := Kernel.escalateAll_ok hmail
  have hconcluded : ∀ job ∈ t.jobs, ∀ a, t.kernel.objects[job.ref]? = some a →
      k1.objects[job.ref]? = some (job.concluded code a) :=
    fun job hjob a => h.concluded_of_supervised hwf hs hjob
  -- mailboxes are reclaimed by the agents' own names, which supervision does not change
  obtain ⟨bus3, hrec, hbox3⟩ := Kernel.reclaimAll t.jobs { k1 with bus := bus2 } (by
    intro job hjob a (ha : k1.objects[job.ref]? = some a)
    obtain ⟨b, hb, hname⟩ := (h.jobs hwf).object job hjob
    rw [hconcluded job hjob b hb] at ha
    cases ha
    rw [Job.concluded_name, hname])
  refine ⟨{ k1 with bus := bus3 }, ?_, ?_⟩
  · simp [TickState.barrier, hsup, hesc, hrec]
  have hlog : t.barrierLog code = k1.escalationLog t.casualties := by
    simp [TickState.barrierLog, hsup]
  constructor
  case agents => exact hs.agents
  case tick => exact hs.tick.trans h.tick
  case errors => exact hs.errors
  case stopReason => exact hs.stopReason.trans h.stopReason
  case length => exact hs.length
  case job => exact hconcluded
  case others =>
    exact fun i hi => hs.others i fun job hm => hi job (t.casualties_sublist.subset hm)
  case restarted => exact hs.names
  case posted =>
    intro x
    rw [hlog, hposted, hs.keys]
    rfl
  case box =>
    intro x
    show bus3.mailboxes.get? x = _
    rw [hbox3, hlog]
    refine if_congr Iff.rfl rfl ?_
    show bus2.mailboxes.get? x = _
    rw [hbox2, hs.box, Option.map_map]
    simp [Function.comp_def]

/-- **The law of a completed tick**: when every `on_restart` returns and the bus
accepts every notice, the barrier does not raise, and leaves behind what
`TickOutcome` says. -/
theorem barrier_ok (h : InTick k t) (hwf : k.Wf) {code : AgentCode σ}
    (hr : t.HooksReturn code)
    (hmail : ∀ k1 names, Kernel.Supervised code t.kernel t.casualties k1 names →
      ∀ m ∈ k1.notices t.casualties, k1.bus.Accepts m) (waiting : List String) :
    ∃ k' names, t.barrier code waiting = (k', .ok (t.report waiting names))
      ∧ TickOutcome code k t k' names := by
  obtain ⟨k1, names, hsup, hs⟩ := Kernel.superviseAll_ok (h.casualties hwf) hr
  obtain ⟨k', hbar, hout⟩ := h.outcome_of_supervised hwf hsup hs (hmail k1 names hs) waiting
  exact ⟨k', names, hbar, hout⟩

/-- Conversely, a barrier that does not raise has called no hook that does. -/
theorem hooksReturn_of_barrier (h : InTick k t) (hwf : k.Wf) {code : AgentCode σ}
    {waiting : List String} {k' : Kernel σ} {report : TickReport}
    (hbar : t.barrier code waiting = (k', .ok report)) : t.HooksReturn code := by
  rw [TickState.barrier] at hbar
  split at hbar
  · cases hbar
  · exact Kernel.restartReturns_of_superviseAll (h.casualties hwf) ‹_›

/-- A barrier that does not raise leaves behind what `TickOutcome` says, whatever
the agents did. -/
theorem outcome_of_barrier (h : InTick k t) (hwf : k.Wf) {code : AgentCode σ}
    {waiting : List String} {k' : Kernel σ} {report : TickReport}
    (hbar : t.barrier code waiting = (k', .ok report)) :
    ∃ names, TickOutcome code k t k' names := by
  obtain ⟨k1, names, hsup, hs⟩ :=
    Kernel.superviseAll_ok (h.casualties hwf) (h.hooksReturn_of_barrier hwf hbar)
  have hmail : ∀ m ∈ k1.notices t.casualties, k1.bus.Accepts m := by
    simp only [TickState.barrier, hsup] at hbar
    split at hbar
    · cases hbar
    · exact Kernel.accepts_of_escalateAll ‹_›
  obtain ⟨k2, hbar', hout⟩ := h.outcome_of_supervised hwf hsup hs hmail waiting
  rw [hbar] at hbar'
  obtain rfl : k' = k2 := congrArg Prod.fst hbar'
  exact ⟨names, hout⟩

end InTick

namespace TickOutcome

variable {code : AgentCode σ} {k k' : Kernel σ} {t : TickState σ} {names : List String}

/-- The agent of a job is finished when what supervision concludes is dead. -/
theorem isFinishedAt_iff (h : TickOutcome code k t k' names) {job : Job σ} (hjob : job ∈ t.jobs)
    {a : Agent σ} (ha : t.kernel.objects[job.ref]? = some a) :
    k'.isFinishedAt job = true ↔ (job.concluded code a).isAlive = false := by
  simp [Kernel.isFinishedAt, h.job job hjob a ha, AgentState.isFinished, Agent.isAlive]

/-- What the tick makes of an object, scheduled or not. -/
theorem object (h : TickOutcome code k t k' names) (hin : InTick k t) (hwf : k.Wf) {ref : Nat}
    {b : Agent σ} (hb : t.kernel.objects[ref]? = some b) :
    ∃ c, k'.objects[ref]? = some c ∧ c.name = b.name
      ∧ ((∀ job ∈ t.jobs, job.ref ≠ ref) → c = b)
      ∧ ∀ job ∈ t.jobs, job.ref = ref → c = job.concluded code b := by
  by_cases hjob : ∃ job ∈ t.jobs, job.ref = ref
  · obtain ⟨job, hm, rfl⟩ := hjob
    refine ⟨_, h.job job hm b hb, Job.concluded_name code job b,
      fun hno => absurd rfl (hno job hm), fun j hj href => ?_⟩
    rw [List.inj_on_of_nodup_map (hin.refs_nodup hwf) hj hm href]
  · have hno : ∀ job ∈ t.jobs, job.ref ≠ ref := fun job hm he => hjob ⟨job, hm, he⟩
    exact ⟨b, by rw [h.others ref hno, hb], rfl, fun _ => rfl,
      fun job hm he => absurd he (hno job hm)⟩

theorem wf (h : TickOutcome code k t k' names) (hin : InTick k t) (hwf : k.Wf) : k'.Wf := by
  intro x ref hx
  rw [h.agents] at hx
  obtain ⟨b, hb, hname⟩ := hin.wf x ref hx
  obtain ⟨c, hc, hcn, -⟩ := h.object hin hwf hb
  exact ⟨c, hc, hcn.trans hname⟩

end TickOutcome

/-! ## Ticks of any agents: what goes back to a mailbox -/

namespace InTick

variable {k : Kernel σ} {t : TickState σ}

/-- The inbox of a failed step that is restarted goes back, nothing else does. -/
theorem requeued_of_job (h : InTick k t) (hwf : k.Wf) {job : Job σ} (hjob : job ∈ t.jobs) :
    t.kernel.requeued t.casualties job.name
      = if job.phase.isFailed && t.kernel.willRestart job then job.handedBack else [] := by
  have hfilter : (t.casualties.filter fun j => j.name = job.name && t.kernel.willRestart j)
      = if job.phase.isFailed && t.kernel.willRestart job then [job] else [] := by
    cases hf : job.phase.isFailed with
    | true =>
      rw [filter_and_eq_of_nodup_map (h.casualties hwf).names (List.mem_filter.mpr ⟨hjob, hf⟩),
        Bool.true_and]
    | false =>
      rw [List.filter_eq_nil_iff.mpr]
      · rfl
      · intro j hm hp
        obtain ⟨hm', hfj⟩ := List.mem_filter.mp hm
        simp only [Bool.and_eq_true, decide_eq_true_eq] at hp
        rw [List.inj_on_of_nodup_map (h.names_nodup hwf) hm' hjob hp.1, hf] at hfj
        cases hfj
  rw [Kernel.requeued, ← List.head?_filter, hfilter]
  split <;> rfl

end InTick

/-- **What a step that returns leaves behind**, whatever the agents do. -/
theorem Kernel.outcome_of_stepWith {code : AgentCode σ} {k k' : Kernel σ} (hwf : k.Wf)
    {b : Backend} {loop : Bool} {sched : List Nat} {report : TickReport}
    (hstep : k.stepWith code b loop sched = (k', .ok report)) :
    ∃ t names, t = k.beginTick.exec code b.isAsync sched
      ∧ k.tickWith code b loop sched = t ∧ InTick k t ∧ TickOutcome code k t k' names
      ∧ k.stepLog code b loop sched
          = k.beginTick.log code b.isAsync sched ++ t.barrierLog code := by
  obtain ⟨hrefused, hraises, hbarrier⟩ := barrier_of_stepWith hstep
  have hin := (InTick.begin hwf).exec hwf code b.isAsync sched
  obtain ⟨names, hout⟩ := hin.outcome_of_barrier hwf hbarrier
  exact ⟨_, names, rfl, tickWith_of_accepted hrefused sched, hin, hout,
    stepLog_of_accepted hrefused hraises⟩

/-! ## Ticks of Context-only agents -/

namespace ContextTick

variable {k : Kernel σ} {t : TickState σ} {log : List Delivery}

/-- Who is alive after the restarts was alive at the start or has joined. -/
theorem live_or_joined_of_supervised (h : ContextTick k t log) (hwf : k.Wf)
    {code : AgentCode σ} {k1 : Kernel σ} {names : List String}
    (hs : Kernel.Supervised code t.kernel t.casualties k1 names) {x : String} {a : Agent σ}
    (hx : k1.agent? x = some a) (halive : a.isAlive = true) :
    k.isLive x = true ∨ k.joinedBy t.kernel x := by
  obtain ⟨ref, hreg, ho⟩ := Kernel.agent?_eq_some_iff.mp hx
  rw [hs.agents] at hreg
  by_cases hjob : ∃ job ∈ t.casualties, job.ref = ref
  · obtain ⟨job, hmem, rfl⟩ := hjob
    left
    have hm := t.casualties_sublist.subset hmem
    obtain ⟨b, hkreg, -⟩ := h.inTick.origin hwf hm
    have hxn : x = job.name := h.inTick.wf.ref_inj hreg (h.registered _ _ hkreg)
    subst hxn
    exact (h.inTick.live hwf hm).1
  · rw [hs.others ref fun job hmem href => hjob ⟨job, hmem, href⟩] at ho
    exact h.live_or_joined hwf (Kernel.agent?_eq_some_iff.mpr ⟨ref, hreg, ho⟩) halive

/-- The bus accepts every notice: the parent it goes to has a mailbox. -/
theorem accepts_notices (h : ContextTick k t log) (hwf : k.Wf) (haddr : k.Addressable)
    {code : AgentCode σ} {k1 : Kernel σ} {names : List String}
    (hs : Kernel.Supervised code t.kernel t.casualties k1 names) :
    ∀ m ∈ k1.notices t.casualties, k1.bus.Accepts m := by
  intro m hm
  obtain ⟨job, -, -, a, parent, p, -, -, hp, halive, rfl⟩ := Kernel.mem_notices.mp hm
  right
  rw [hs.keys]
  exact h.hasBox haddr (h.live_or_joined_of_supervised hwf hs hp halive)

/-- The law of a completed tick of Context-only agents whose `on_restart`
returns. -/
theorem barrier_ok (h : ContextTick k t log) (hwf : k.Wf) (haddr : k.Addressable)
    {code : AgentCode σ} (hr : t.HooksReturn code) (waiting : List String) :
    ∃ k' names, t.barrier code waiting = (k', .ok (t.report waiting names))
      ∧ TickOutcome code k t k' names :=
  h.inTick.barrier_ok hwf hr (fun _ _ hs => h.accepts_notices hwf haddr hs) waiting

end ContextTick

end TitoOS
