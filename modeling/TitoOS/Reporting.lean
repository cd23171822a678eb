import TitoOS.Lib.Interleaving
import TitoOS.Script

/-!
# What a tick schedules and reports

`Kernel.step` builds its report from lists that it zips and filters while the
agents change the registry underneath. Every job of a tick is stepped once,
with the inbox drained for it (`InTick.called_of_complete`), and the report puts each
live agent of the start of the tick in one of its lists, in registration order
(`tick_schedules_once`).
-/

namespace TitoOS

variable {σ : Type}

/-! ## The calls of steps -/

/-- The call of its agent's `step` that the next action of a job makes: the
agent object and the inbox of its context. -/
def Kernel.moveStepCalls (k : Kernel σ) (job : Job σ) : List (Nat × List Message) :=
  if job.phase.isPending && (k.objects[job.ref]?).isSome then [(job.ref, job.inbox)] else []

namespace TickState

/-- The call of a step that the next action of the `i`-th job makes. -/
def stepCalls (i : Nat) (t : TickState σ) : List (Nat × List Message) :=
  match t.jobs[i]? with
  | none => []
  | some job => t.kernel.moveStepCalls job

/-- The calls of steps along a schedule. -/
def called (code : AgentCode σ) (async : Bool) (sched : List Nat) (t : TickState σ) :
    List (Nat × List Message) :=
  Schedule.emitted (advance code async) stepCalls sched t

/-- The calls of steps that a tick still has to make. -/
def uncalled (t : TickState σ) : List (Nat × List Message) :=
  (t.jobs.filter fun job => job.phase.isPending).map fun job => (job.ref, job.inbox)

theorem uncalled_of_complete {t : TickState σ} (h : t.isComplete = true) : t.uncalled = [] := by
  rw [uncalled, List.map_eq_nil_iff, List.filter_eq_nil_iff]
  intro job hjob
  have hstarted := Phase.not_isPending_of_isSettled (isComplete_iff.mp h job hjob)
  simp [hstarted]

theorem uncalled_beginTick (k : Kernel σ) :
    k.beginTick.uncalled = k.beginTick.jobs.map fun job => (job.ref, job.inbox) := by
  rw [uncalled, List.filter_eq_self.mpr]
  intro job hjob
  rw [(Kernel.object_of_mem_beginTick hjob).1]
  rfl

end TickState

namespace InTick

variable {k : Kernel σ} {t : TickState σ}

/-- After its next action a job has begun. -/
theorem moveJob_started (h : InTick k t) (hwf : k.Wf) (code : AgentCode σ) (async : Bool)
    {job : Job σ} (hjob : job ∈ t.jobs) :
    (t.kernel.moveJob code async job).2.isPending = false := by
  obtain ⟨a, ho, -, hstate⟩ := h.job_object hwf hjob
  obtain ⟨a', -, hphase⟩ := t.kernel.moveJob_state code async ho hstate
  cases hp : (t.kernel.moveJob code async job).2 with
  | pending =>
    rw [hp] at hphase
    cases hphase
  | running | returned | failed | escaped => rfl

/-- One move calls the step of the job it starts, and no other. -/
theorem uncalled_advance (h : InTick k t) (hwf : k.Wf) (code : AgentCode σ) (async : Bool)
    (i : Nat) : (t.stepCalls i ++ (t.advance code async i).uncalled).Perm t.uncalled := by
  unfold TickState.stepCalls
  cases hi : t.jobs[i]? with
  | none => simp [TickState.advance_of_none hi]
  | some job =>
    have hjob : job ∈ t.jobs := List.mem_of_getElem? hi
    have hmoved := h.moveJob_started hwf code async hjob
    obtain ⟨a, ho, -⟩ := h.job_object hwf hjob
    obtain ⟨hlt, hget⟩ := List.getElem?_eq_some_iff.mp hi
    simp only [TickState.uncalled, TickState.advance_of_some code async hi, Kernel.moveStepCalls,
      ho, Option.isSome_some, Bool.and_true]
    generalize (t.kernel.moveJob code async job).2 = phase at hmoved
    cases hp : job.phase.isPending with
    | true =>
      -- the list before the move is the list after it with the job put back
      have hset : (t.jobs.set i { job with phase }).set i job = t.jobs := by
        rw [List.set_set, ← hget]
        exact List.set_getElem_self hlt
      have hperm := filter_set_perm (p := fun j : Job σ => j.phase.isPending)
        (l := t.jobs.set i { job with phase }) (i := i) (a := { job with phase }) (b := job)
        (by simp [hlt]) hmoved hp
      rw [hset] at hperm
      simpa using (hperm.map fun j : Job σ => (j.ref, j.inbox)).symm
    | false =>
      rw [filter_set_of_eq (p := fun j : Job σ => j.phase.isPending) hi hp hmoved]
      simp

/-- **Every job of a completed tick is stepped once**, with the inbox drained
for it. -/
theorem called_of_complete (hwf : k.Wf) (code : AgentCode σ) (async : Bool) (sched : List Nat)
    (hcomplete : (k.beginTick.exec code async sched).isComplete = true) :
    (k.beginTick.called code async sched).Perm
      (k.beginTick.jobs.map fun job => (job.ref, job.inbox)) := by
  have hbegin : InTick k k.beginTick
      ∧ (([] : List (Nat × List Message)) ++ k.beginTick.uncalled).Perm k.beginTick.uncalled :=
    ⟨InTick.begin hwf, .refl _⟩
  obtain ⟨-, hcalled⟩ := Schedule.exec_emitted_induction
    (I := fun u log => InTick k u ∧ (log ++ u.uncalled).Perm k.beginTick.uncalled)
    (fun i u log ⟨hu, hperm⟩ => ⟨hu.advance hwf code async i, by
      rw [List.append_assoc]
      exact ((hu.uncalled_advance hwf code async i).append_left log).trans hperm⟩) sched hbegin
  have hnone : TickState.uncalled (Schedule.exec (TickState.advance code async) sched k.beginTick)
      = [] := TickState.uncalled_of_complete hcomplete
  rwa [hnone, TickState.uncalled_beginTick, List.append_nil, List.nil_append] at hcalled

end InTick

/-! ## The report -/

/-- The policy and the budget of the agent named `x` allow a restart. -/
def Kernel.allowsRestart (k : Kernel σ) (x : String) : Bool := (k.agent? x).any Kernel.mayRestart

/-- The tick `t`, which started from `k` and made the calls `called`, schedules
exactly the right agents once, and `report` says so. -/
structure SchedulesOnce (code : AgentCode σ) (k : Kernel σ) (t : TickState σ)
    (called : List (Nat × List Message)) (report : TickReport) : Prop where
  /-- The live agents, in registration order, are the merge of the three lists. -/
  merged : ∃ stepped, Interleaving report.ran report.failed stepped
    ∧ Interleaving stepped report.waiting (k.liveSnapshot.map fun e => e.2.name)
  ran_failed : report.ran.Disjoint report.failed
  ran_waiting : report.ran.Disjoint report.waiting
  failed_waiting : report.failed.Disjoint report.waiting
  waiting_iff : ∀ x, x ∈ report.waiting
    ↔ ∃ a, k.agent? x = some a ∧ a.state = .waiting ∧ k.inboxOf x = []
  /-- The step of every other live agent is called once, with its mailbox as it
  was. -/
  called_once : ∀ ref a, (ref, a) ∈ k.liveSnapshot → a.name ∉ report.waiting →
    called.filter (·.1 = ref) = [(ref, k.inboxOf a.name)]
  /-- No other step is called, and none of an agent object that is new. -/
  called_live : ∀ ref inbox, (ref, inbox) ∈ called → ref < k.objects.length
    ∧ ∃ a, (ref, a) ∈ k.liveSnapshot ∧ a.name ∉ report.waiting
  /-- The report says of each agent how its own step ended. -/
  outcome : ∀ job ∈ t.jobs, (job.name ∈ report.ran ↔ job.phase.isReturned = true)
    ∧ (job.name ∈ report.failed ↔ job.phase.isFailed = true)
  restarted : report.restarted = report.failed.filter k.allowsRestart
  hooks : t.HooksReturn code

/-- Who is skipped. -/
theorem Kernel.mem_waitingNames_iff {k : Kernel σ} (hwf : k.Wf) (x : String) :
    x ∈ k.waitingNames ↔ ∃ a, k.agent? x = some a ∧ a.state = .waiting ∧ k.inboxOf x = [] := by
  simp only [Kernel.waitingNames, Kernel.drained_eq hwf, List.mem_map, List.mem_filter,
    Kernel.isSkipped, Bool.and_eq_true, decide_eq_true_eq, List.isEmpty_iff, Prod.exists]
  constructor
  · rintro ⟨ref, a, inbox, ⟨⟨r, b, hmem, heq⟩, hw, hempty⟩, rfl⟩
    cases heq
    obtain ⟨hreg, ho, -⟩ := (Kernel.mem_liveSnapshot_iff hwf).mp hmem
    exact ⟨a, Kernel.agent?_eq_some_iff.mpr ⟨ref, hreg, ho⟩, hw, hempty⟩
  · rintro ⟨a, ha, hw, hempty⟩
    obtain ⟨ref, hreg, ho⟩ := Kernel.agent?_eq_some_iff.mp ha
    obtain ⟨b, hb, rfl⟩ := hwf x ref hreg
    rw [ho] at hb
    cases hb
    have halive : a.isAlive = true := by simp [Agent.isAlive, hw, AgentState.isAlive]
    exact ⟨ref, a, [], ⟨⟨ref, a, (Kernel.mem_liveSnapshot_iff hwf).mpr ⟨hreg, ho, halive⟩,
      by rw [hempty]⟩, hw, rfl⟩, rfl⟩

/-- The jobs of a completed tick are those that returned and those that failed. -/
theorem TickState.interleaving_jobs {t : TickState σ} (hcomplete : t.isComplete = true) :
    Interleaving ((t.jobs.filter fun job => job.phase.isReturned).map Job.name)
      (t.casualties.map Job.name) (t.jobs.map Job.name) := by
  have hmerge := (Interleaving.filter (fun job : Job σ => job.phase.isReturned) t.jobs).map
    Job.name
  have hfailed : (t.jobs.filter fun job => !job.phase.isReturned) = t.casualties := by
    refine List.filter_congr (fun job hjob => ?_)
    have hsettled := TickState.isComplete_iff.mp hcomplete job hjob
    cases hp : job.phase with
    | pending | running | escaped => rw [hp] at hsettled; cases hsettled
    | returned | failed => rfl
  rwa [hfailed] at hmerge

namespace InTick

variable {k : Kernel σ} {t : TickState σ}

/-- The names of the live agents are those of the jobs and of the skipped. -/
theorem interleaving_live (h : InTick k t) (hwf : k.Wf) :
    Interleaving (t.jobs.map Job.name) k.waitingNames
      (k.liveSnapshot.map fun e => e.2.name) := by
  have hmerge := (Interleaving.filter (fun e => !Kernel.isSkipped e) k.drained).map
    fun e => e.1.2.name
  have hjobs : t.jobs.map Job.name
      = (k.drained.filter fun e => !Kernel.isSkipped e).map fun e => e.1.2.name := by
    rw [TickState.map_name_of_fixed h.fixed, Kernel.beginTick, Kernel.scheduled, List.map_map]
    rfl
  have hlive : (k.liveSnapshot.map fun e => e.2.name) = k.drained.map fun e => e.1.2.name := by
    rw [Kernel.drained_eq hwf, List.map_map]
    rfl
  rw [hjobs, hlive, Kernel.waitingNames]
  simpa using hmerge

/-- What decides about a restart is what the agent was at the start of the tick. -/
theorem willRestart_eq (h : InTick k t) (hwf : k.Wf) {job : Job σ} (hjob : job ∈ t.jobs) :
    t.kernel.willRestart job = k.allowsRestart job.name := by
  obtain ⟨a, hreg, ho, -⟩ := h.origin hwf hjob
  obtain ⟨a', ho', hsame, -⟩ := h.object _ a ho
  have hagent : k.agent? job.name = some a := Kernel.agent?_eq_some_iff.mpr ⟨_, hreg, ho⟩
  simp only [Kernel.willRestart, Kernel.allowsRestart, ho', hagent, Option.any_some]
  rw [hsame]
  rfl

theorem restarted_eq (h : InTick k t) (hwf : k.Wf) :
    (t.casualties.filter t.kernel.willRestart).map Job.name
      = (t.casualties.map Job.name).filter k.allowsRestart := by
  rw [List.filter_map]
  refine congrArg _ (List.filter_congr fun job hjob => ?_)
  exact h.willRestart_eq hwf (t.casualties_sublist.subset hjob)

end InTick

/-- The report of a barrier that does not raise. -/
theorem InTick.report_of_barrier {k k' : Kernel σ} {t : TickState σ} (h : InTick k t)
    (hwf : k.Wf) {code : AgentCode σ} {waiting : List String} {report : TickReport}
    (hbar : t.barrier code waiting = (k', .ok report)) :
    report = t.report waiting ((t.casualties.map Job.name).filter k.allowsRestart) := by
  obtain ⟨k1, names, hsup, hs⟩ :=
    Kernel.superviseAll_ok (h.casualties hwf) (h.hooksReturn_of_barrier hwf hbar)
  rw [← h.restarted_eq hwf, ← hs.names]
  simp only [TickState.barrier, hsup] at hbar
  split at hbar
  · cases hbar
  · cases hbar
    rfl

/-- The call of the step of a live agent that is not skipped. -/
theorem Kernel.mem_calls_of_live {k : Kernel σ} (hwf : k.Wf) {ref : Nat} {a : Agent σ}
    (hlive : (ref, a) ∈ k.liveSnapshot) (hw : a.name ∉ k.waitingNames) :
    (ref, k.inboxOf a.name) ∈ k.beginTick.jobs.map fun job => (job.ref, job.inbox) := by
  obtain ⟨hreg, ho, halive⟩ := (mem_liveSnapshot_iff hwf).mp hlive
  refine List.mem_map.mpr ⟨{ ref, name := a.name, inbox := k.inboxOf a.name }, ?_, rfl⟩
  refine (mem_beginTick_jobs hwf).mpr ⟨a, hreg, ho, halive, fun hwaiting hempty => hw ?_, rfl⟩
  exact (mem_waitingNames_iff hwf a.name).mpr
    ⟨a, agent?_eq_some_iff.mpr ⟨ref, hreg, ho⟩, hwaiting, hempty⟩

/-- A job belongs to a live agent that is not skipped. -/
theorem Kernel.live_of_mem_calls {k : Kernel σ} (hwf : k.Wf) {ref : Nat} {inbox : List Message}
    (h : (ref, inbox) ∈ k.beginTick.jobs.map fun job => (job.ref, job.inbox)) :
    ∃ a, (ref, a) ∈ k.liveSnapshot ∧ a.name ∉ k.waitingNames := by
  obtain ⟨job, hjob, heq⟩ := List.mem_map.mp h
  cases heq
  obtain ⟨a, hreg, ho, halive, hskip, -⟩ := (mem_beginTick_jobs hwf).mp hjob
  refine ⟨a, (mem_liveSnapshot_iff hwf).mpr ⟨hreg, ho, halive⟩, fun hmem => ?_⟩
  obtain ⟨b, hb, hwaiting, hempty⟩ := (mem_waitingNames_iff hwf a.name).mp hmem
  rw [agent?_eq_some_iff.mpr ⟨_, hreg, ho⟩] at hb
  cases hb
  exact hskip hwaiting hempty

/-- **A tick schedules exactly the right agents once**: whatever the agents do
and in whatever order the backend lets them, a step that returns has called the
step of every live agent but the idle ones, once and with its mailbox, and
reports each under how its step ended. -/
theorem tick_schedules_once {code : AgentCode σ} {k k' : Kernel σ} (hwf : k.Wf)
    {b : Backend} {loop : Bool} {sched : List Nat} {report : TickReport}
    (hallow : k.Allows code b loop sched)
    (hstep : k.stepWith code b loop sched = (k', .ok report)) :
    SchedulesOnce code k (k.tickWith code b loop sched)
      (k.beginTick.called code b.isAsync sched) report := by
  obtain ⟨hrefused, hraises, hbarrier⟩ := Kernel.barrier_of_stepWith hstep
  have hcomplete := Kernel.isComplete_of_allows hallow hrefused hraises
  have hcalled := InTick.called_of_complete hwf code b.isAsync sched hcomplete
  rw [Kernel.tickWith_of_accepted hrefused]
  have hin : InTick k (k.beginTick.exec code b.isAsync sched) :=
    (InTick.begin hwf).exec hwf code b.isAsync sched
  -- from here on only the last point of the tick matters, not how it was reached
  generalize k.beginTick.called code b.isAsync sched = called at hcalled ⊢
  generalize k.beginTick.exec code b.isAsync sched = t at hbarrier hcomplete hin ⊢
  obtain rfl := hin.report_of_barrier hwf hbarrier
  have hjobs := TickState.interleaving_jobs hcomplete
  have hlive := hin.interleaving_live hwf
  have hnames := hin.names_nodup hwf
  have hnodup := Kernel.liveSnapshot_names_nodup hwf
  have hskipped : (t.jobs.map Job.name).Disjoint k.waitingNames := hlive.disjoint hnodup
  have hrefs : ((k.beginTick.jobs.map fun job => (job.ref, job.inbox)).map Prod.fst).Nodup := by
    rw [List.map_map]
    exact Kernel.beginTick_refs_nodup hwf
  exact {
    merged := ⟨_, hjobs, hlive⟩
    ran_failed := hjobs.disjoint hnames
    ran_waiting := fun x hran => hskipped (hjobs.mem_iff.mpr (.inl hran))
    failed_waiting := fun x hfailed => hskipped (hjobs.mem_iff.mpr (.inr hfailed))
    waiting_iff := Kernel.mem_waitingNames_iff hwf
    called_once := by
      intro ref a hmem hw
      have hcall := Kernel.mem_calls_of_live hwf hmem hw
      have hfilter := hcalled.filter fun c : Nat × List Message => decide (c.1 = ref)
      rw [filter_eq_of_nodup_map hrefs hcall] at hfilter
      exact List.perm_singleton.mp hfilter
    called_live := by
      intro ref inbox hmem
      obtain ⟨a, ha, hw⟩ := Kernel.live_of_mem_calls hwf (hcalled.mem_iff.mp hmem)
      obtain ⟨-, ho, -⟩ := (Kernel.mem_liveSnapshot_iff hwf).mp ha
      exact ⟨(List.getElem?_eq_some_iff.mp ho).1, a, ha, hw⟩
    outcome := fun job hjob =>
      ⟨mem_map_filter_of_nodup_map hnames hjob _, mem_map_filter_of_nodup_map hnames hjob _⟩
    restarted := rfl
    hooks := hin.hooksReturn_of_barrier hwf hbarrier }

/-- A kernel after one tick: the first agent waits, the third has failed once. -/
def lineupOps : List (Op Script) :=
  [.register (Script.agent "idler" (by decide) [.wait]) none,
   .register (Script.agent "steady" (by decide) []) none,
   .register (Script.agent "shaky" (by decide) [.fail "boom"] .onFailure) none,
   .tick .serial [0, 0, 0, 1, 1, 2, 2]]

theorem lineupOps_accepted : (Kernel.replay scripted lineupOps {}).isSome = true := by decide

def lineup : Kernel Script := ((Kernel.replay scripted lineupOps {}).get lineupOps_accepted).2

/-- On two threads, where the agent that fails overtakes the other. -/
theorem tick_schedules_once_lineup :
    SchedulesOnce scripted lineup
      (lineup.tickWith scripted (.thread 2 (by decide)) false [0, 1, 1, 0])
      (lineup.beginTick.called scripted false [0, 1, 1, 0])
      { tick := 2, ran := ["steady"], failed := ["shaky"], waiting := ["idler"],
        restarted := ["shaky"] } :=
  tick_schedules_once (b := .thread 2 (by decide))
    (Kernel.wf_of_performs ((Kernel.reached_of_replay lineupOps_accepted).mono fun _ _ _ h => h.1)
      Kernel.sound_init.wf)
    (by decide) (Prod.ext rfl (by decide))

end TitoOS
