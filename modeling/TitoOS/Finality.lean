import TitoOS.Isolation

/-!
# What ends an agent

`Context.exit` promises that the agent "will not be scheduled again". The
lifecycle state is a plain attribute that `wait` and `exit` both overwrite, so
the last of them decides: a step that returns ends its agent when it has not
called `wait` after its last `exit`, and the agent's mailbox goes with it when
the tick comes to its end (`exit_final_iff`).

An agent object that is dead when a tick has ended stays dead under whatever is
done to the kernel afterwards (`Gone.performs`), and a tick schedules the living
only (`Gone.not_scheduled`).
-/

namespace TitoOS

variable {σ : Type}

/-! ## The last word of a step -/

/-- No `wait` follows the last `exit` of the calls. -/
def ExitsLast (calls : List Call) : Prop :=
  ∃ before after, calls = before ++ .exit :: after ∧ Call.wait ∉ after

theorem exitsLast_append_iff {calls : List Call} {c : Call} :
    ExitsLast (calls ++ [c]) ↔ c = .exit ∨ c ≠ .wait ∧ ExitsLast calls := by
  constructor
  · rintro ⟨before, after, heq, hafter⟩
    rcases List.eq_nil_or_concat after with rfl | ⟨after, d, rfl⟩
    · obtain ⟨-, hc⟩ := List.append_inj' heq rfl
      exact .inl (List.head_eq_of_cons_eq hc)
    · rw [List.concat_eq_append] at heq hafter
      have hsplit : calls ++ [c] = (before ++ .exit :: after) ++ [d] := by simpa using heq
      obtain ⟨hcalls, hc⟩ := List.append_inj' hsplit rfl
      obtain rfl : c = d := List.head_eq_of_cons_eq hc
      simp only [List.mem_append, List.mem_singleton, not_or] at hafter
      exact .inr ⟨Ne.symm hafter.2, before, after, hcalls, hafter.1⟩
  · rintro (rfl | ⟨hc, before, after, rfl, hafter⟩)
    · exact ⟨calls, [], rfl, by simp⟩
    · exact ⟨before, after ++ [c], by simp, by simp [hafter, Ne.symm hc]⟩

/-- **The last word counts**: the calls of a step leave its agent DONE exactly
when they end with an `exit`. -/
theorem stateAfter_eq_done_iff (calls : List Call) :
    stateAfter calls = .done ↔ ExitsLast calls := by
  induction calls using List.reverseRecOn with
  | nil => simp [ExitsLast]
  | append_singleton calls c ih =>
    rw [stateAfter_append, exitsLast_append_iff]
    cases c <;> simp [Call.apply, ih]

theorem settled_eq_done_iff (calls : List Call) :
    (stateAfter calls).settled = .done ↔ ExitsLast calls := by
  rw [← stateAfter_eq_done_iff]
  cases stateAfter calls <;> simp [AgentState.settled]

/-! ## Dead agents -/

/-- The agent object at `ref` is dead. -/
structure Gone (ref : Nat) (k : Kernel σ) : Prop where
  wf : k.Wf
  dead : ∃ a, k.objects[ref]? = some a ∧ a.isAlive = false

namespace Gone

variable {code : AgentCode σ} {ref : Nat} {k k' : Kernel σ}

/-- A dead agent is not scheduled. -/
theorem not_scheduled (h : Gone ref k) : ∀ job ∈ k.beginTick.jobs, job.ref ≠ ref := by
  rintro job hjob rfl
  obtain ⟨a, ha, hdead⟩ := h.dead
  obtain ⟨b, -, hb, halive, -⟩ := (Kernel.mem_beginTick_jobs h.wf).mp hjob
  rw [ha] at hb
  cases hb
  rw [hdead] at halive
  cases halive

/-- A tick leaves the dead alone, whatever the agents do. -/
theorem inTick (h : Gone ref k) {t : TickState σ} (hin : InTick k t) :
    (∀ job ∈ t.jobs, job.ref ≠ ref)
    ∧ ∃ a, t.kernel.objects[ref]? = some a ∧ a.isAlive = false := by
  have hno : ∀ job ∈ t.jobs, job.ref ≠ ref := by
    intro job hjob
    obtain ⟨job', hmem, href, -⟩ := TickState.exists_of_fixed hin.fixed hjob
    exact href ▸ h.not_scheduled job' hmem
  obtain ⟨a, ha, hdead⟩ := h.dead
  obtain ⟨a', ha', -, hpend⟩ := hin.object ref a ha
  rw [hpend fun job hjob href => absurd href (hno job hjob)] at ha'
  exact ⟨hno, a, ha', hdead⟩

theorem stepWith (h : Gone ref k) (code : AgentCode σ) (b : Backend) (loop : Bool)
    (sched : List Nat) : Gone ref (k.stepWith code b loop sched).1 := by
  refine ⟨h.wf.stepWith code b loop sched, ?_⟩
  have hin := fun sched => h.inTick ((InTick.begin h.wf).exec h.wf code b.isAsync sched)
  rcases Kernel.stepWith_fst_cases code b loop sched k with ⟨sched', heq⟩ | heq
  · rw [heq]
    exact (hin sched').2
  · obtain ⟨hno, a, ha, hdead⟩ := hin sched
    have hkept := Kernel.kept_barrier code k.waitingNames
      (k.beginTick.exec code b.isAsync sched)
    rw [heq]
    rcases hkept.object ref with hsame | ⟨⟨job, hjob, href⟩, -⟩
    · exact ⟨a, hsame.trans ha, hdead⟩
    · exact absurd href (hno job (TickState.casualties_sublist _ |>.subset hjob))

/-- **Dead agents stay dead**, whatever is done to the kernel. -/
theorem performs (h : Gone ref k) {act : Act σ} (hperf : k.Performs code act k') :
    Gone ref k' := by
  obtain ⟨a, ha, hdead⟩ := h.dead
  cases act with
  | register b p =>
    refine ⟨h.wf.register hperf, a, ?_, hdead⟩
    obtain ⟨-, rfl⟩ := Kernel.register_eq_ok_iff.mp hperf
    obtain ⟨hlt, -⟩ := List.getElem?_eq_some_iff.mp ha
    rw [List.getElem?_append_left hlt, ha]
  | unregister x =>
    obtain rfl := hperf
    exact ⟨h.wf.unregister x, a, ha, hdead⟩
  | post s r p m =>
    obtain ⟨bus, -, rfl⟩ := Kernel.busPost_eq_ok hperf
    exact ⟨h.wf, a, ha, hdead⟩
  | step b loop sched =>
    obtain ⟨-, rfl⟩ := hperf
    exact h.stepWith code b loop sched

theorem runs (h : Gone ref k) {acts : List (Act σ)}
    (hrun : Runs (Kernel.Performs code) k acts k') : Gone ref k' :=
  hrun.invariant (I := Gone ref) (fun _ _ _ hu hperf => hu.performs hperf) h

end Gone

/-! ## The end of a tick -/

namespace InTick

variable {k k' : Kernel σ} {t : TickState σ} {job : Job σ}

/-- The barrier leaves the agent of a step that returned as that step left it. -/
theorem object_of_returned (h : InTick k t) (hwf : k.Wf)
    (hkept : Kernel.Kept t.casualties t.kernel k') (hjob : job ∈ t.jobs)
    (hfailed : job.phase.isFailed = false) :
    k'.objects[job.ref]? = t.kernel.objects[job.ref]? := by
  rcases hkept.object job.ref with hsame | ⟨⟨job', hmem, href⟩, -⟩
  · exact hsame
  · rw [h.isFailed_of_casualty hwf hjob hmem href] at hfailed
    cases hfailed

end InTick

/-- A tick in which some step has ended was not refused, and leaves everybody as
its barrier, if it came to it, keeps them. -/
theorem Kernel.kept_of_stepWith {code : AgentCode σ} {k k' : Kernel σ} (hwf : k.Wf) {b : Backend}
    {loop : Bool} {sched : List Nat} {result : Except Exc TickReport}
    (hstep : k.stepWith code b loop sched = (k', result)) {job : Job σ}
    (hjob : job ∈ (k.tickWith code b loop sched).jobs) (hsettled : job.phase.isSettled = true) :
    InTick k (k.tickWith code b loop sched)
    ∧ Kept (k.tickWith code b loop sched).casualties (k.tickWith code b loop sched).kernel k' := by
  cases hrefused : k.refused code b loop with
  | some e =>
    -- no step of a refused tick has started
    simp only [tickWith, hrefused] at hjob
    rw [(object_of_mem_beginTick hjob).1] at hsettled
    cases hsettled
  | none =>
    rw [tickWith_of_accepted hrefused]
    refine ⟨(InTick.begin hwf).exec hwf code b.isAsync sched, ?_⟩
    cases hraises : b.raises (k.beginTick.exec code b.isAsync sched) with
    | some e =>
      rw [stepWith_of_raises hrefused hraises] at hstep
      cases hstep
      exact .of_bus ..
    | none =>
      rw [stepWith_of_accepted hrefused hraises] at hstep
      have hkept := kept_barrier code k.waitingNames (k.beginTick.exec code b.isAsync sched)
      rwa [hstep] at hkept

/-- A call of `step` that raises once a step has ended reclaims no mailbox. -/
theorem Kernel.keys_of_stepWith_error {code : AgentCode σ} {k k' : Kernel σ} {b : Backend}
    {loop : Bool} {sched : List Nat} {e : Exc}
    (hstep : k.stepWith code b loop sched = (k', .error e)) :
    k'.bus.mailboxes.keys = (k.tickWith code b loop sched).kernel.bus.mailboxes.keys := by
  cases hrefused : k.refused code b loop with
  | some e' =>
    rw [stepWith_of_refused hrefused] at hstep
    cases hstep
    simp only [tickWith, hrefused]
  | none =>
    rw [tickWith_of_accepted hrefused]
    cases hraises : b.raises (k.beginTick.exec code b.isAsync sched) with
    | some e' =>
      rw [stepWith_of_raises hrefused hraises] at hstep
      cases hstep
      rfl
    | none =>
      rw [stepWith_of_accepted hrefused hraises] at hstep
      exact keys_of_barrier_error hstep

/-! ## Exit -/

/-- The agent of the job has ended for good with the tick that left `k'`: it is
DONE, its mailbox has been reclaimed, and no tick of any continuation schedules
it. -/
structure Final (code : AgentCode σ) (k' : Kernel σ) (job : Job σ) : Prop where
  done : ∃ a, k'.objects[job.ref]? = some a ∧ a.name = job.name ∧ a.state = .done
  reclaimed : k'.bus.mailboxes.get? job.name = none
  never : ∀ acts k'', Runs (Kernel.Performs code) k' acts k'' →
    ∀ job' ∈ k''.beginTick.jobs, job'.ref ≠ job.ref

/-- **When exit is final**: exactly when the step does not call `wait` after its
last `exit`, and the tick comes to its end (or somebody has unregistered the
agent by then). -/
theorem exit_final_iff {code : AgentCode σ} {acts : List (Act σ)} {k k' : Kernel σ}
    (hreach : Runs (Kernel.Performs code) {} acts k) {b : Backend} {loop : Bool} {sched : List Nat}
    {result : Except Exc TickReport} (hstep : k.stepWith code b loop sched = (k', result))
    {job : Job σ} (hjob : job ∈ (k.tickWith code b loop sched).jobs) {calls : List Call}
    {inbox : List Message} (hphase : job.phase = .returned calls inbox) :
    Final code k' job ↔ ExitsLast calls
      ∧ ((k.tickWith code b loop sched).ComesToEnd code b
        ∨ job.name ∉ (k.tickWith code b loop sched).kernel.bus.mailboxes.keys) := by
  have hwf : k.Wf := Kernel.wf_of_performs hreach Kernel.sound_init.wf
  have hwf' : k'.Wf := by simpa [hstep] using hwf.stepWith code b loop sched
  have haccepted : k.refused code b loop = none := by
    cases hrefused : k.refused code b loop with
    | none => rfl
    | some e =>
      -- no step of a refused tick has started
      simp only [Kernel.tickWith, hrefused] at hjob
      have hpending := (Kernel.object_of_mem_beginTick hjob).1
      rw [hphase] at hpending
      cases hpending
  have hends := Kernel.isOk_stepWith_iff hwf haccepted sched
  rw [hstep] at hends
  obtain ⟨hin, hkept⟩ := Kernel.kept_of_stepWith hwf hstep hjob (by rw [hphase]; rfl)
  obtain ⟨a, ha, hname, hstate⟩ := hin.job_object hwf hjob
  have hobj : k'.objects[job.ref]? = some a := by
    rw [hin.object_of_returned hwf hkept hjob (by rw [hphase]; rfl), ha]
  have hdone : a.state = .done ↔ ExitsLast calls := by
    rw [hstate _ (by rw [hphase]; rfl), settled_eq_done_iff]
  -- the mailbox, of an agent that is done
  have hmailbox : ExitsLast calls → (k'.bus.mailboxes.get? job.name = none
      ↔ (k.tickWith code b loop sched).ComesToEnd code b
        ∨ job.name ∉ (k.tickWith code b loop sched).kernel.bus.mailboxes.keys) := by
    intro h
    cases result with
    | ok report =>
      obtain ⟨t, names, -, htick, -, hout, -⟩ := Kernel.outcome_of_stepWith hwf hstep
      have hfinished : k'.isFinishedAt job = true := by
        rw [Kernel.isFinishedAt, hobj]
        simp [hdone.mpr h, AgentState.isFinished, AgentState.isAlive]
      have hnone : k'.bus.mailboxes.get? job.name = none := by
        rw [hout.box, if_pos ⟨job, htick ▸ hjob, rfl, hfinished⟩]
      exact iff_of_true hnone (.inl (hends.mp rfl))
    | error e =>
      have hno : ¬ (k.tickWith code b loop sched).ComesToEnd code b :=
        fun hend => Bool.false_ne_true (hends.mpr hend)
      rw [Dict.get?_eq_none_iff, Kernel.keys_of_stepWith_error hstep]
      simp [hno]
  constructor
  · intro h
    obtain ⟨c, hc, -, hcdone⟩ := h.done
    rw [hobj] at hc
    cases hc
    have hlast := hdone.mp hcdone
    exact ⟨hlast, (hmailbox hlast).mp h.reclaimed⟩
  · rintro ⟨hlast, hend⟩
    have hdead : a.isAlive = false := by rw [Agent.isAlive, hdone.mpr hlast]; rfl
    have hgone : Gone job.ref k' := ⟨hwf', a, hobj, hdead⟩
    constructor
    case done => exact ⟨a, hobj, hname, hdone.mpr hlast⟩
    case reclaimed => exact (hmailbox hlast).mpr hend
    case never => exact fun acts k'' hrun => (hgone.runs hrun).not_scheduled

/-- One agent that exits after waiting and one that waits after exiting. -/
def leavingOps : List (Op Script) :=
  [.register (Script.agent "quitter" (by decide) [.wait, .exit]) none,
   .register (Script.agent "waverer" (by decide) [.exit, .wait]) none]

theorem leavingOps_accepted : (Kernel.replay scripted leavingOps {}).isSome = true := by decide

def leaving : Kernel Script := ((Kernel.replay scripted leavingOps {}).get leavingOps_accepted).2

/-- The two of them at the end of their tick. -/
def leavingJobs : List (Job Script) :=
  [{ ref := 0, name := "quitter", inbox := [], phase := .returned [.wait, .exit] [] },
   { ref := 1, name := "waverer", inbox := [], phase := .returned [.exit, .wait] [] }]

/-- The tick they run in. -/
def leavingSched : List Nat := [0, 0, 0, 0, 1, 1, 1, 1]

theorem leavingJobs_eq :
    (leaving.tickWith scripted .serial false leavingSched).jobs = leavingJobs := rfl

theorem leaving_reached : Runs (Kernel.Performs scripted) {} (leavingOps.map Op.act) leaving :=
  (Kernel.replay_settles (Option.some_get leavingOps_accepted).symm).mono fun _ _ _ h => h.1

/-- Who exits last has ended. -/
theorem exit_final_iff_quitter :
    Final scripted (leaving.stepWith scripted .serial false leavingSched).1
      { ref := 0, name := "quitter", inbox := [], phase := .returned [.wait, .exit] [] } := by
  have hwf : leaving.Wf := Kernel.wf_of_performs leaving_reached Kernel.sound_init.wf
  have haccepted : leaving.refused scripted .serial false = none := by decide
  exact (exit_final_iff leaving_reached
    (show leaving.stepWith scripted .serial false leavingSched = (_, _) from rfl)
    (leavingJobs_eq ▸ List.mem_cons_self) rfl).mpr
    ⟨⟨[.wait], [], rfl, by simp⟩, .inl ((Kernel.isOk_stepWith_iff hwf haccepted _).mp (by decide))⟩

/-- **`wait` undoes `exit`**: an agent that waits after it has exited is neither
DONE nor rid of its mailbox, and runs again once it has mail. -/
theorem exit_undone_by_wait :
    ¬ (∀ job ∈ (leaving.tickWith scripted .serial false leavingSched).jobs, ∀ calls inbox,
        job.phase = .returned calls inbox → Call.exit ∈ calls →
          Final scripted (leaving.stepWith scripted .serial false leavingSched).1 job)
      ∧ (leaving.stepWith scripted .serial false leavingSched).2.isOk = true
      ∧ (leaving.stepWith scripted .serial false leavingSched).1.bus.mailboxes.contains "waverer"
          = true
      ∧ ∃ k, (leaving.stepWith scripted .serial false leavingSched).1.busPost
            "user" "waverer" (.str "again") ∅ = .ok k
          ∧ k.beginTick.jobs.map Job.name = ["waverer"] := by
  refine ⟨fun h => ?_, by decide, by decide, _, rfl, by decide⟩
  have hmem : leavingJobs[1] ∈ (leaving.tickWith scripted .serial false leavingSched).jobs := by
    rw [leavingJobs_eq]
    exact List.getElem_mem _
  have hfinal := h _ hmem _ _ rfl (by decide)
  obtain ⟨a, ha, -, hdone⟩ := hfinal.done
  cases ha
  revert hdone
  decide

end TitoOS
