import TitoOS.Kernel.TickLaws
import TitoOS.Lib.Transition

/-!
# Runs of the kernel

A run is what a user of a `Kernel` sees: agents are registered, messages are
posted from outside, and ticks complete. Each event carries what happened, so a
history of events says everything a statement about a run is about: who ran
with which inbox, what was appended to which mailbox, and what was reported.

`TickRun` collects what is known about one completed tick of Context-only
agents, from the point of view of a single agent (`TickRun.fate`) and of a
single mailbox (`TickRun.mailbox`).
-/

namespace TitoOS

variable {σ : Type}

/-- Something that happens to a kernel between two boundaries. -/
inductive Event (σ : Type) where
  | registered (agent : FreshAgent σ) (parent : Option String)
  | posted (log : List Delivery)
  /-- A completed tick: its agents as their steps left them, all that was
  appended to mailboxes, and the report. -/
  | ticked (tick : TickState σ) (log : List Delivery) (report : TickReport)

namespace Event

/-- What the event appended to mailboxes, in acceptance order. -/
def log : Event σ → List Delivery
  | posted log | ticked _ log _ => log
  | _ => []

/-- The agents the event stepped. -/
def jobs : Event σ → List (Job σ)
  | ticked t .. => t.jobs
  | _ => []

/-- The names the event reports as restarted. -/
def restarted : Event σ → List String
  | ticked _ _ report => report.restarted
  | _ => []

end Event

/-- **How a step ends**: normally, with a failure that is restarted, or with one
that is permanent. -/
theorem Job.concluded_cases (code : AgentCode σ) {job : Job σ} {a : Agent σ}
    (hsettled : job.phase.isSettled = true) (hs : job.phase.state? = some a.state) :
    (∃ calls inbox, job.phase = .returned calls inbox ∧ job.phase.isFailed = false
      ∧ job.concluded code a = a ∧ a.state = (stateAfter calls).settled)
    ∨ (∃ calls inbox, job.phase = .failed calls inbox ∧ a.state = .failed
      ∧ Kernel.mayRestart a = true ∧ job.concluded code a = Kernel.restarted code a)
    ∨ (∃ calls inbox, job.phase = .failed calls inbox ∧ a.state = .failed
      ∧ Kernel.mayRestart a = false ∧ job.concluded code a = a) := by
  unfold Job.concluded
  cases hp : job.phase with
  | pending | running | escaped => rw [hp] at hsettled; cases hsettled
  | returned calls inbox =>
    rw [hp] at hs
    exact .inl ⟨calls, inbox, rfl, rfl, rfl, (Option.some.inj hs).symm⟩
  | failed calls inbox =>
    rw [hp] at hs
    right
    cases hm : Kernel.mayRestart a with
    | true =>
      exact .inl ⟨calls, inbox, rfl, (Option.some.inj hs).symm, rfl, by simp [Phase.isFailed]⟩
    | false => exact .inr ⟨calls, inbox, rfl, (Option.some.inj hs).symm, rfl, by simp⟩

/-- A name is registered, with an agent object, or it is not. -/
theorem Kernel.Wf.registered_or {k : Kernel σ} (hwf : k.Wf) (x : String) :
    (∃ a, k.agent? x = some a) ∨ x ∉ k.agents.keys := by
  by_cases hin : x ∈ k.agents.keys
  · obtain ⟨ref, hreg⟩ := Dict.mem_keys_iff.mp hin
    obtain ⟨a0, ha0, -⟩ := hwf.agent? hreg
    exact .inl ⟨a0, ha0⟩
  · exact .inr hin

/-- One event of a kernel whose agents run `code`. Nobody is unregistered. -/
inductive Kernel.Next (code : AgentCode σ) : Kernel σ → Event σ → Kernel σ → Prop
  | register {k k' : Kernel σ} {a : FreshAgent σ} {p : Option String} :
      k.register a p = .ok k' → Next code k (.registered a p) k'
  | post {k k' : Kernel σ} {s r : String} {p : Value} {m : Metadata} :
      k.busPost s r p m = .ok k' →
      Next code k
        (.posted (k.bus.deliveries { sender := s, recipient := r, payload := p, metadata := m })) k'
  | tick {k k' : Kernel σ} {b : Backend} {loop : Bool} {sched : List Nat} {report : TickReport} :
      k.Allows code b loop sched → k.stepWith code b loop sched = (k', .ok report) →
      Next code k
        (.ticked (k.tickWith code b loop sched) (k.stepLog code b loop sched) report) k'

/-- The runs of a kernel whose agents run `code`. -/
abbrev Kernel.Run (code : AgentCode σ) : Kernel σ → List (Event σ) → Kernel σ → Prop :=
  Runs (Kernel.Next code)

/-! ## One completed tick -/

/-- `t` is the end of a tick from `k` in which the agents sent `sent`, and `k'`
the kernel after its barrier, which restarted `names`. -/
structure TickRun (code : AgentCode σ) (k : Kernel σ) (t : TickState σ) (sent : List Delivery)
    (k' : Kernel σ) (names : List String) : Prop where
  point : ContextTick k t sent
  complete : t.isComplete = true
  outcome : TickOutcome code k t k' names

/-- **A step that returns is a completed tick.** -/
theorem Kernel.tickRun_of_stepWith {code : AgentCode σ} (hcode : code.ContextOnly)
    {k k' : Kernel σ} (hwf : k.Wf) (haddr : k.Addressable)
    {b : Backend} {loop : Bool} {sched : List Nat} {report : TickReport}
    (hallow : k.Allows code b loop sched)
    (hstep : k.stepWith code b loop sched = (k', .ok report)) :
    ∃ sent names, TickRun code k (k.tickWith code b loop sched) sent k' names
      ∧ sent = k.beginTick.log code b.isAsync sched
      ∧ report = (k.tickWith code b loop sched).report k.waitingNames names
      ∧ k.stepLog code b loop sched
          = sent ++ (k.tickWith code b loop sched).barrierLog code := by
  obtain ⟨hrefused, hraises, hbarrier⟩ := barrier_of_stepWith hstep
  have hcomplete := isComplete_of_allows hallow hrefused hraises
  have hpoint := ContextTick.exec hwf hcode b.isAsync sched
  obtain ⟨k1, names, hok, hout⟩ := hpoint.barrier_ok hwf haddr
    (hpoint.inTick.hooksReturn_of_barrier hwf hbarrier) k.waitingNames
  rw [hok] at hbarrier
  cases hbarrier
  rw [tickWith_of_accepted hrefused]
  exact ⟨_, names, ⟨hpoint, hcomplete, hout⟩, rfl, rfl, stepLog_of_accepted hrefused hraises⟩

namespace TickRun

variable {code : AgentCode σ} {k k' : Kernel σ} {t : TickState σ} {sent : List Delivery}
  {names : List String}

theorem settled (h : TickRun code k t sent k' names) {job : Job σ} (hjob : job ∈ t.jobs) :
    job.phase.isSettled = true :=
  TickState.isComplete_iff.mp h.complete job hjob

theorem wf (h : TickRun code k t sent k' names) (hwf : k.Wf) : k'.Wf :=
  h.outcome.wf h.point.inTick hwf

/-- The registry only grows. -/
theorem registered (h : TickRun code k t sent k' names) {x : String} {ref : Nat}
    (hx : k.agents.get? x = some ref) : k'.agents.get? x = some ref := by
  rw [h.outcome.agents]
  exact h.point.registered x ref hx

/-- A name that is not registered after a tick was not registered before, nor run
in the tick. -/
theorem not_registered (h : TickRun code k t sent k' names) (hwf : k.Wf) {x : String}
    (hx : x ∉ k'.agents.keys) : x ∉ k.agents.keys ∧ ∀ job ∈ t.jobs, job.name ≠ x := by
  have hold : x ∉ k.agents.keys := by
    intro hin
    obtain ⟨ref, href⟩ := Dict.mem_keys_iff.mp hin
    exact hx (Dict.mem_keys_of_get? (h.registered href))
  refine ⟨hold, fun job hm hname => ?_⟩
  obtain ⟨a, hreg, -⟩ := h.point.inTick.origin hwf hm
  exact hold (hname ▸ Dict.mem_keys_of_get? hreg)

/-- **What a tick does to one agent**: nothing if the agent is not scheduled;
otherwise its step runs to its end and supervision concludes on it. -/
theorem fate (h : TickRun code k t sent k' names) (hwf : k.Wf) {x : String} {a : Agent σ}
    (hx : k.agent? x = some a) :
    ((∀ job ∈ t.jobs, job.name ≠ x) ∧ k'.agent? x = some a)
    ∨ ∃ job ∈ t.jobs, job.name = x ∧ a.isAlive = true ∧ job.inbox = k.inboxOf x
        ∧ ∃ a1, t.kernel.objects[job.ref]? = some a1 ∧ a.SameAgent a1
          ∧ job.phase.state? = some a1.state ∧ k'.agent? x = some (job.concluded code a1) := by
  obtain ⟨ref, hreg, ho⟩ := Kernel.agent?_eq_some_iff.mp hx
  obtain ⟨a1, ho1, hsame, hpend⟩ := h.point.inTick.object ref a ho
  have hreg' := h.registered hreg
  by_cases hjob : ∃ job ∈ t.jobs, job.ref = ref
  · obtain ⟨job, hmem, rfl⟩ := hjob
    right
    obtain ⟨b, hkreg, hkob, hbname, halive, -, hinbox⟩ := h.point.inTick.origin hwf hmem
    rw [ho] at hkob
    cases hkob
    have hname : job.name = x := hwf.ref_inj hkreg hreg
    have hs := h.point.inTick.state_of_started hmem
      (Phase.not_isPending_of_isSettled (h.settled hmem)) ho1
    exact ⟨job, hmem, hname, halive, hname ▸ hinbox, a1, ho1, hsame, hs,
      Kernel.agent?_eq_some_iff.mpr ⟨_, hreg', h.outcome.job job hmem a1 ho1⟩⟩
  · have hno : ∀ job ∈ t.jobs, job.ref ≠ ref := fun job hm he => hjob ⟨job, hm, he⟩
    refine .inl ⟨fun job hm hname => ?_, Kernel.agent?_eq_some_iff.mpr ⟨ref, hreg', ?_⟩⟩
    · obtain ⟨b, hkreg, -⟩ := h.point.inTick.origin hwf hm
      rw [hname, hreg] at hkreg
      cases hkreg
      exact hno job hm rfl
    · rw [h.outcome.others ref hno, ho1, hpend fun job hm he => absurd he (hno job hm)]

/-- An agent that joined during the tick is READY, was never restarted and has
not run. -/
theorem joined (h : TickRun code k t sent k' names) (hwf : k.Wf) {x : String} {a : Agent σ}
    (hx : k'.agent? x = some a) (hnew : x ∉ k.agents.keys) :
    a.state = .ready ∧ a.restarts = 0 ∧ k.joinedBy t.kernel x
      ∧ ∀ job ∈ t.jobs, job.name ≠ x := by
  obtain ⟨ref, hreg, ho⟩ := Kernel.agent?_eq_some_iff.mp hx
  rw [h.outcome.agents] at hreg
  have hfresh := h.point.joined hreg hnew
  have hno : ∀ job ∈ t.jobs, job.ref ≠ ref := by
    rintro job hm rfl
    obtain ⟨b, -, hb, -⟩ := h.point.inTick.origin hwf hm
    obtain ⟨hlt, -⟩ := List.getElem?_eq_some_iff.mp hb
    omega
  rw [h.outcome.others ref hno] at ho
  obtain ⟨hready, hzero⟩ := h.point.inTick.fresh ref a hfresh ho
  refine ⟨hready, hzero, ⟨Dict.mem_keys_of_get? hreg, hnew⟩, fun job hm hname => ?_⟩
  obtain ⟨b, hkreg, -⟩ := h.point.inTick.origin hwf hm
  exact hnew (hname ▸ Dict.mem_keys_of_get? hkreg)

/-- An agent object once its tick is over is not RUNNING. -/
theorem concluded_idle (h : TickRun code k t sent k' names) {job : Job σ} (hjob : job ∈ t.jobs)
    {a : Agent σ} (hs : job.phase.state? = some a.state) :
    (job.concluded code a).state ≠ .running := by
  obtain ⟨calls, inbox, -, -, hc, hstate⟩ | ⟨calls, inbox, -, -, -, hc⟩
    | ⟨calls, inbox, -, hf, -, hc⟩ :=
    Job.concluded_cases code (h.settled hjob) hs
  · rw [hc, hstate]
    exact AgentState.settled_ne_running _
  · rw [hc]
    simp [Kernel.restarted]
  · rw [hc, hf]
    simp

/-- A job is reclaimed exactly when its agent is dead after the tick. -/
theorem isFinishedAt_eq (h : TickRun code k t sent k' names) (hwf : k.Wf) {job : Job σ}
    (hjob : job ∈ t.jobs) {c : Agent σ} (hc : k'.agent? job.name = some c) :
    k'.isFinishedAt job = !c.isAlive := by
  obtain ⟨b, hkreg, -⟩ := h.point.inTick.origin hwf hjob
  obtain ⟨ref, hreg, ho⟩ := Kernel.agent?_eq_some_iff.mp hc
  rw [h.registered hkreg] at hreg
  cases hreg
  simp [Kernel.isFinishedAt, ho, Agent.isAlive, AgentState.isFinished]

/-- **Who is alive after a tick**: who was at its start or joined, without the
finished. -/
theorem isLive_iff (h : TickRun code k t sent k' names) (hwf : k.Wf) (x : String) :
    k'.isLive x = true ↔ (k.isLive x = true ∨ k.joinedBy t.kernel x)
      ∧ ¬ ∃ job ∈ t.jobs, job.name = x ∧ k'.isFinishedAt job = true := by
  constructor
  · intro hlive
    obtain ⟨c, hc, halive⟩ := Kernel.isLive_iff.mp hlive
    refine ⟨?_, ?_⟩
    -- the name was registered when the tick began, or joined in it
    · rcases hwf.registered_or x with ⟨a, ha⟩ | hnew
      · left
        rcases h.fate hwf ha with ⟨-, hsame⟩ | ⟨job, -, -, ha', -⟩
        · rw [hc] at hsame
          cases hsame
          exact Kernel.isLive_iff.mpr ⟨c, ha, halive⟩
        · exact Kernel.isLive_iff.mpr ⟨a, ha, ha'⟩
      · exact .inr (h.joined hwf hc hnew).2.2.1
    · rintro ⟨job, hjob, rfl, hfin⟩
      rw [h.isFinishedAt_eq hwf hjob hc, halive] at hfin
      cases hfin
  · rintro ⟨hlj, hno⟩
    obtain ⟨c, hc, hfresh⟩ : ∃ c, k'.agent? x = some c
        ∧ ((∀ job ∈ t.jobs, job.name ≠ x) → c.isAlive = true) := by
      rcases hlj with hlive | hjoin
      · obtain ⟨a, ha, halive⟩ := Kernel.isLive_iff.mp hlive
        rcases h.fate hwf ha with ⟨-, hsame⟩ | ⟨job, hjob, hname, -, -, a1, -, -, -, hc⟩
        · exact ⟨a, hsame, fun _ => halive⟩
        · exact ⟨_, hc, fun hnone => absurd hname (hnone job hjob)⟩
      · obtain ⟨ref, hreg⟩ := Dict.mem_keys_iff.mp hjoin.1
        obtain ⟨c, hc, -⟩ := (h.wf hwf).agent? (h.outcome.agents ▸ hreg)
        exact ⟨c, hc, fun _ => by
          simp [Agent.isAlive, (h.joined hwf hc hjoin.2).1, AgentState.isAlive]⟩
    refine Kernel.isLive_iff.mpr ⟨c, hc, ?_⟩
    by_cases hjob : ∃ job ∈ t.jobs, job.name = x
    · obtain ⟨job, hmem, rfl⟩ := hjob
      by_contra hdead
      refine hno ⟨job, hmem, rfl, ?_⟩
      rw [h.isFinishedAt_eq hwf hmem hc]
      simpa using hdead
    · exact hfresh fun job hm hn => hjob ⟨job, hm, hn⟩

/-! ### Who is restarted, and what goes back to a mailbox -/

/-- The report lists a scheduled agent as restarted when its step failed and its
policy restarts it. -/
theorem mem_restarted_iff (h : TickRun code k t sent k' names) (hwf : k.Wf) {job : Job σ}
    (hjob : job ∈ t.jobs) {a : Agent σ} (ha : t.kernel.objects[job.ref]? = some a) :
    job.name ∈ names ↔ job.phase.isFailed = true ∧ Kernel.mayRestart a = true := by
  have hwill : t.kernel.willRestart job = Kernel.mayRestart a := by
    simp [Kernel.willRestart, ha]
  rw [h.outcome.restarted, TickState.casualties, List.filter_filter,
    mem_map_filter_of_nodup_map (h.point.inTick.names_nodup hwf) hjob, Bool.and_eq_true, hwill,
    and_comm]

theorem not_mem_restarted (h : TickRun code k t sent k' names) {x : String}
    (hno : ∀ job ∈ t.jobs, job.name ≠ x) : x ∉ names := by
  rw [h.outcome.restarted, List.mem_map]
  rintro ⟨job, hm, hname⟩
  exact hno job (List.mem_filter.mp (List.mem_filter.mp hm).1).1 hname

theorem requeued_of_no_job {t : TickState σ} {x : String}
    (hno : ∀ job ∈ t.jobs, job.name ≠ x) : t.kernel.requeued t.casualties x = [] := by
  have hfind : (t.casualties.find? fun job => job.name = x && t.kernel.willRestart job) = none := by
    rw [List.find?_eq_none]
    intro job hm hp
    simp only [Bool.and_eq_true, decide_eq_true_eq] at hp
    exact hno job (List.mem_filter.mp hm).1 hp.1
  rw [Kernel.requeued, hfind]
  rfl

/-- The drained inbox of a failed step that is restarted goes back. -/
theorem requeued_of_job (h : TickRun code k t sent k' names) (hwf : k.Wf) {job : Job σ}
    (hjob : job ∈ t.jobs) :
    t.kernel.requeued t.casualties job.name
      = if job.phase.isFailed && t.kernel.willRestart job then job.inbox else [] := by
  rw [h.point.inTick.requeued_of_job hwf hjob, h.point.handedBack job hjob]

/-- The agent of a job that is alive after the tick gets its inbox back unless
its step returned. -/
theorem requeued_of_live (h : TickRun code k t sent k' names) (hwf : k.Wf) {job : Job σ}
    (hjob : job ∈ t.jobs) (hlive : k'.isLive job.name = true) :
    t.kernel.requeued t.casualties job.name = if job.phase.isReturned then [] else job.inbox := by
  rw [h.requeued_of_job hwf hjob]
  obtain ⟨a, hreg, ho, -⟩ := h.point.inTick.origin hwf hjob
  obtain ⟨a1, ho1, -, hstate⟩ := h.point.inTick.job_object hwf hjob
  obtain ⟨c, hc, halive⟩ := Kernel.isLive_iff.mp hlive
  obtain ⟨ref, hreg', ho'⟩ := Kernel.agent?_eq_some_iff.mp hc
  rw [h.registered hreg] at hreg'
  cases hreg'
  rw [h.outcome.job job hjob a1 ho1] at ho'
  have hsettled := h.settled hjob
  cases hp : job.phase with
  | pending | running | escaped => rw [hp] at hsettled; cases hsettled
  | returned => simp [Phase.isReturned, Phase.isFailed]
  | failed calls inbox =>
    have hfailed : a1.state = .failed := hstate _ (by rw [hp]; rfl)
    have hrestart : Kernel.mayRestart a1 = true := by
      by_contra hno
      rw [Job.concluded, hp] at ho'
      simp only [Phase.isFailed, Bool.true_and, if_neg hno] at ho'
      cases ho'
      simp [Agent.isAlive, AgentState.isAlive, hfailed] at halive
    simp [Phase.isReturned, Phase.isFailed, Kernel.willRestart, ho1, hrestart]

/-- **The mailboxes after a tick** from a sound kernel: those of the live agents,
each holding what was put back and what was delivered. -/
theorem mailbox (h : TickRun code k t sent k' names) (hs : k.Sound) (x : String) :
    k'.bus.mailboxes.get? x = if k'.isLive x = true
      then some (t.kernel.requeued t.casualties x ++ deliveredTo x (sent ++ t.barrierLog code))
      else none := by
  have hbox := h.point.box_of_sound hs x
  have hlive := h.isLive_iff hs.wf x
  rw [h.outcome.box]
  by_cases hlj : k.isLive x = true ∨ k.joinedBy t.kernel x
  · rw [hbox.1 hlj]
    by_cases hfin : ∃ job ∈ t.jobs, job.name = x ∧ k'.isFinishedAt job = true
    · rw [if_pos hfin, if_neg fun hl => (hlive.mp hl).2 hfin]
    · rw [if_neg hfin, if_pos (hlive.mpr ⟨hlj, hfin⟩), deliveredTo_append]
      simp
  · rw [(hbox.2 hlj).1, if_neg fun hl => hlj (hlive.mp hl).1]
    simp

/-- **A completed tick keeps the kernel sound.** -/
theorem sound (h : TickRun code k t sent k' names) (hs : k.Sound) : k'.Sound where
  wf := h.wf hs.wf
  mail := by
    intro x
    rw [Dict.mem_keys_iff, h.mailbox hs]
    split <;> simp_all
  idle := by
    intro x c hc
    rcases hs.wf.registered_or x with ⟨a, ha⟩ | hnew
    · rcases h.fate hs.wf ha with ⟨-, hsame⟩ | ⟨job, hjob, -, -, -, a1, -, -, hstate, hc'⟩
      · rw [hc] at hsame
        cases hsame
        exact hs.idle x c ha
      · rw [hc] at hc'
        cases hc'
        exact h.concluded_idle hjob hstate
    · rw [(h.joined hs.wf hc hnew).1]
      simp

end TickRun

/-! ## Whole runs -/

/-- **Every kernel of a run is sound.** -/
theorem Kernel.Run.sound {code : AgentCode σ} (hcode : code.ContextOnly)
    {k k' : Kernel σ} {es : List (Event σ)} (h : Kernel.Run code k es k') (hs : k.Sound) :
    k'.Sound := by
  refine Runs.invariant (I := Kernel.Sound) ?_ h hs
  intro u e u' hu hnext
  cases hnext with
  | register hreg => exact hu.register hreg
  | post hpost => exact hu.busPost hpost
  | tick hallow hstep =>
    obtain ⟨sent, names, hrun, -⟩ :=
      tickRun_of_stepWith hcode hu.wf hu.addressable hallow hstep
    exact hrun.sound hu

/-! ## Any sequence of acts -/

namespace Kernel

theorem Wf.of_kept {jobs : List (Job σ)} {k k' : Kernel σ} (h : k.Wf) (hkept : Kept jobs k k') :
    k'.Wf := by
  intro x ref hx
  rw [hkept.agents] at hx
  obtain ⟨a, ha, hname⟩ := h x ref hx
  rcases hkept.object ref with hsame | ⟨-, b, a', hb, ha', hname', -⟩
  · exact ⟨a, hsame.trans ha, hname⟩
  · rw [ha] at hb
    cases hb
    exact ⟨a', ha', hname'.trans hname⟩

/-- A step keeps the registry well-formed, whatever the agents do and whether or
not it raises. -/
theorem Wf.stepWith {k : Kernel σ} (h : k.Wf) (code : AgentCode σ) (b : Backend) (loop : Bool)
    (sched : List Nat) : (k.stepWith code b loop sched).1.Wf := by
  have hin : ∀ sched, (k.beginTick.exec code b.isAsync sched).kernel.Wf := fun sched =>
    ((InTick.begin h).exec h code b.isAsync sched).wf
  rcases stepWith_fst_cases code b loop sched k with ⟨sched', heq⟩ | heq
  · exact heq ▸ hin sched'
  · exact heq ▸ (hin sched).of_kept (kept_barrier ..)

/-- **Every kernel that can be reached is well-formed**. -/
theorem wf_of_performs {code : AgentCode σ} {k k' : Kernel σ} {acts : List (Act σ)}
    (h : Runs (fun (k : Kernel σ) act k' => k.Performs code act k') k acts k') (hwf : k.Wf) :
    k'.Wf := by
  refine Runs.invariant (I := Wf) ?_ h hwf
  intro u act u' hu hperf
  cases act with
  | register a p => exact hu.register hperf
  | unregister x =>
    obtain rfl := hperf
    exact hu.unregister x
  | post s r p m =>
    obtain ⟨bus, -, rfl⟩ := busPost_eq_ok hperf
    exact hu
  | step b loop sched =>
    obtain ⟨-, rfl⟩ := hperf
    exact hu.stepWith code b loop sched

end Kernel

end TitoOS
