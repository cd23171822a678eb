import TitoOS.Script

/-!
# Failure isolation

What a tick owes each agent whatever the others do (`Prescribed`), and when it
delivers: the supervision pass calls `on_restart` unguarded, so one hook that
raises aborts the barrier for everybody. The agents here are arbitrary: their
steps may also use the kernel's `register` and `unregister`.
-/

namespace TitoOS

variable {σ : Type}

/-! ## Steps that raise nothing but `Exception`s -/

/-- The agents raise nothing but what `_run_agent` catches. -/
def AgentCode.Catchable (code : AgentCode σ) : Prop :=
  ∀ s a tick inbox, (code.step s a tick inbox).Catchable

theorem AgentCode.Catchable.stepOf {code : AgentCode σ} (h : code.Catchable) (a : Agent σ)
    (tick : Int) (inbox : List Message) : (code.stepOf a tick inbox).Catchable := by
  unfold AgentCode.stepOf
  split
  · exact h ..
  · rfl

/-- Nothing has escaped from the job, and nothing is going to. -/
def Job.Catchable (job : Job σ) : Prop :=
  match job.phase with
  | .running _ _ rest => rest.Catchable
  | .escaped .. => False
  | _ => True

theorem Kernel.moveJob_catchable {code : AgentCode σ} (hcode : code.Catchable) (k : Kernel σ)
    (async : Bool) {job : Job σ} (h : job.Catchable) :
    Job.Catchable { job with phase := (k.moveJob code async job).2 } := by
  unfold Job.Catchable moveJob at *
  cases hp : job.phase with
  | pending =>
    simp only [start]
    cases k.objects[job.ref]? with
    | none => trivial
    | some a => exact hcode.stepOf ..
  | returned | failed => trivial
  | escaped => rw [hp] at h; exact h
  | running calls inbox rest =>
    rw [hp] at h
    cases rest with
    | ret => trivial
    | raise e =>
      simp only [act, show e.isException = true from h, if_true]
    | coroutine body =>
      cases async
      · trivial
      · exact h.2
    | store | inbox | broadcast | wait | exit | dropMailbox => exact h.2
    | unregister n rest => exact ⟨trivial, h.2⟩
    | send => exact h.2 _ (ctxSend_answers _ _ _ _ _)
    | spawn | register => exact h.2 _ (ctxRegister_answers _ _ _)

/-- No job of a tick of such agents is escaped from. -/
theorem AgentCode.Catchable.exec {code : AgentCode σ} (hcode : code.Catchable) {k : Kernel σ}
    (hwf : k.Wf) (async : Bool) (sched : List Nat) :
    ∀ job ∈ (k.beginTick.exec code async sched).jobs, job.Catchable := by
  refine TickState.forall_exec (P := Job.Catchable) (fun job hjob => ?_)
    (fun u job => Kernel.moveJob_catchable hcode u async) sched
  obtain ⟨a, -, -, -, -, heq⟩ := (Kernel.mem_beginTick_jobs hwf).mp hjob
  rw [heq]
  trivial

/-- Then the backend does not raise. -/
theorem Backend.raises_eq_none {t : TickState σ} (h : ∀ job ∈ t.jobs, job.Catchable)
    (b : Backend) : b.raises t = none := by
  have hno : ∀ job ∈ t.jobs, job.phase.escaped? = none := by
    intro job hjob
    have := h job hjob
    unfold Job.Catchable at this
    cases hp : job.phase <;> simp_all [Phase.escaped?]
  unfold Backend.raises
  split
  · exact List.findSome?_eq_none_iff.mpr hno
  · cases hfind : t.jobs.find? fun job => !job.phase.isSettled with
    | none => rfl
    | some job => exact hno job (List.mem_of_find?_eq_some hfind)

/-! ## What a tick owes an agent -/

/-- What the agent object `a` of `job` is owed by the end of the tick `t`, which
left the kernel `k'` and posted `posted`. -/
structure Prescribed (code : AgentCode σ) (t : TickState σ) (k' : Kernel σ)
    (posted : List Delivery) (job : Job σ) (a : Agent σ) : Prop where
  /-- Its final state and restart count. -/
  object : k'.objects[job.ref]? = some (job.concluded code a)
  /-- If it is alive its mailbox stays, behind the inbox of a restarted step. -/
  mailbox : (job.concluded code a).isAlive = true →
    k'.bus.mailboxes.get? job.name = (t.kernel.bus.mailboxes.get? job.name).map fun mailbox =>
      (if job.phase.isFailed && Kernel.mayRestart a then job.handedBack else [])
        ++ (mailbox ++ deliveredTo job.name posted)
  /-- If it is finished its mailbox is reclaimed. -/
  reclaimed : (job.concluded code a).isAlive = false → k'.bus.mailboxes.get? job.name = none
  /-- If it is FAILED for good, its live parent is told, once. -/
  notified : (job.concluded code a).state = .failed → ∀ parent, a.parent = some parent →
    parent ≠ BROADCAST → k'.isLive parent = true →
    ((deliveredTo parent posted).filter fun m => m.sender = job.name)
      = [Kernel.childFailed parent a]
  /-- Otherwise nobody is told anything about it. -/
  silent : (job.concluded code a).state ≠ .failed → ∀ x,
    ((deliveredTo x posted).filter fun m => m.sender = job.name) = []

/-- The step returns a report, every scheduled agent gets what it is owed, and
no other object changes. -/
def Kernel.Isolates (code : AgentCode σ) (b : Backend) (loop : Bool) (sched : List Nat)
    (k : Kernel σ) : Prop :=
  ∃ k' report, k.stepWith code b loop sched = (k', .ok report)
    ∧ (∀ job ∈ (k.tickWith code b loop sched).jobs, ∀ a,
        (k.tickWith code b loop sched).kernel.objects[job.ref]? = some a →
        Prescribed code (k.tickWith code b loop sched) k'
          ((k.tickWith code b loop sched).barrierLog code) job a)
    ∧ ∀ i, (∀ job ∈ (k.tickWith code b loop sched).jobs, job.ref ≠ i) →
        k'.objects[i]? = (k.tickWith code b loop sched).kernel.objects[i]?

/-! ## When it gets it -/

namespace TickState

/-- `x` is registered and alive, or will be after the restarts. -/
def Survives (t : TickState σ) (x : String) : Prop :=
  ∃ ref b, t.kernel.agents.get? x = some ref ∧ t.kernel.objects[ref]? = some b
    ∧ (b.isAlive = true ∨ (Kernel.mayRestart b = true ∧ ∃ job ∈ t.casualties, job.ref = ref))

/-- The surviving parent of an agent that failed for good can be written to. -/
def ParentsReachable (t : TickState σ) : Prop :=
  ∀ job ∈ t.casualties, ∀ a, t.kernel.objects[job.ref]? = some a → Kernel.mayRestart a = false →
    ∀ parent, a.parent = some parent → t.Survives parent →
      parent = BROADCAST ∨ parent ∈ t.kernel.bus.mailboxes.keys

end TickState

namespace InTick

variable {k : Kernel σ} {t : TickState σ} {code : AgentCode σ} {k1 : Kernel σ}
  {names : List String}

/-- Who is alive after the restarts. -/
theorem survives_iff (h : InTick k t)
    (hs : Kernel.Supervised code t.kernel t.casualties k1 names) (x : String) :
    (∃ p, k1.agent? x = some p ∧ p.isAlive = true) ↔ t.Survives x := by
  have hcase : ∀ ref b, t.kernel.objects[ref]? = some b → ∃ p, k1.objects[ref]? = some p
      ∧ (p.isAlive = true ↔ (b.isAlive = true
        ∨ (Kernel.mayRestart b = true ∧ ∃ job ∈ t.casualties, job.ref = ref))) := by
    intro ref b hb
    by_cases hjob : ∃ job ∈ t.casualties, job.ref = ref
    · obtain ⟨job, hm, rfl⟩ := hjob
      refine ⟨_, hs.casualty job hm b hb, ?_⟩
      by_cases hmay : Kernel.mayRestart b = true
      · simp only [hmay, if_true, true_and]
        exact ⟨fun _ => .inr ⟨job, hm, rfl⟩, fun _ => rfl⟩
      · simp [hmay]
    · refine ⟨b, by rw [hs.others ref fun job hm he => hjob ⟨job, hm, he⟩, hb], ?_⟩
      exact ⟨.inl, fun hor => hor.elim id fun hr => absurd hr.2 hjob⟩
  simp only [Kernel.agent?_eq_some_iff, hs.agents]
  constructor
  · rintro ⟨p, ⟨ref, hreg, ho⟩, halive⟩
    obtain ⟨b, hb, -⟩ := h.wf x ref hreg
    obtain ⟨p', hp', hiff⟩ := hcase ref b hb
    rw [ho] at hp'
    cases hp'
    exact ⟨ref, b, hreg, hb, hiff.mp halive⟩
  · rintro ⟨ref, b, hreg, hb, hor⟩
    obtain ⟨p, hp, hiff⟩ := hcase ref b hb
    exact ⟨p, ⟨ref, hreg, hp⟩, hiff.mpr hor⟩

/-- A casualty is FAILED until it is restarted. -/
theorem casualty_state (h : InTick k t) {job : Job σ} (hjob : job ∈ t.casualties) {a : Agent σ}
    (ha : t.kernel.objects[job.ref]? = some a) : a.state = .failed := by
  obtain ⟨hm, hf⟩ := List.mem_filter.mp hjob
  obtain ⟨b, hb, hbs⟩ := h.state job hm .failed (by
    cases hp : job.phase <;> simp_all [Phase.isFailed, Phase.state?])
  rw [ha] at hb
  cases hb
  exact hbs

/-- The bus accepts every notice exactly when the parents are reachable. -/
theorem accepts_notices_iff (h : InTick k t) (hwf : k.Wf)
    (hs : Kernel.Supervised code t.kernel t.casualties k1 names) :
    (∀ m ∈ k1.notices t.casualties, k1.bus.Accepts m) ↔ t.ParentsReachable := by
  constructor
  · intro hall job hm a ha hmay parent hparent hsurv
    obtain ⟨p, hp, halive⟩ := (h.survives_iff hs parent).mpr hsurv
    have ha1 : k1.objects[job.ref]? = some a := by
      rw [hs.casualty job hm a ha, hmay]
      rfl
    have := hall (Kernel.childFailed parent a) (Kernel.mem_notices.mpr ⟨job, hm,
      by simp [Kernel.hasFailed, ha1, h.casualty_state hm ha], a, parent, p, ha1, hparent, hp,
      halive, rfl⟩)
    rwa [MessageBus.Accepts, hs.keys] at this
  · intro hreach m hm
    obtain ⟨job, hjob, hf, a1, parent, p, ha1, hparent, hp, halive, rfl⟩ :=
      Kernel.mem_notices.mp hm
    obtain ⟨a, ha, -⟩ := (h.casualties hwf).object job hjob
    have hmay : Kernel.mayRestart a = false := by
      by_contra hmay
      rw [hs.casualty job hjob a ha, if_pos (by simpa using hmay)] at ha1
      cases ha1
      simp [Kernel.hasFailed, hs.casualty job hjob a ha, hmay, Kernel.restarted] at hf
    rw [hs.casualty job hjob a ha, hmay] at ha1
    cases ha1
    rw [MessageBus.Accepts, hs.keys]
    exact hreach job hjob a ha hmay parent hparent
      ((h.survives_iff hs parent).mp ⟨p, hp, halive⟩)

/-- **When the barrier does not raise.** -/
theorem barrier_ok_iff (h : InTick k t) (hwf : k.Wf) (waiting : List String) :
    (∃ k' report, t.barrier code waiting = (k', .ok report))
      ↔ t.HooksReturn code ∧ t.ParentsReachable := by
  constructor
  · rintro ⟨k', report, hbar⟩
    rw [TickState.barrier] at hbar
    split at hbar
    · cases hbar
    · rename_i k1 names hsup
      split at hbar
      · cases hbar
      · rename_i k2 hesc
        have hr := Kernel.restartReturns_of_superviseAll (h.casualties hwf) hsup
        obtain ⟨k1', names', hsup', hs⟩ := Kernel.superviseAll_ok (h.casualties hwf) hr
        rw [hsup] at hsup'
        cases hsup'
        exact ⟨hr, (h.accepts_notices_iff hwf hs).mp (Kernel.accepts_of_escalateAll hesc)⟩
  · rintro ⟨hr, hreach⟩
    obtain ⟨k', names, hbar, -⟩ := h.barrier_ok hwf hr
      (fun _ _ hs => (h.accepts_notices_iff hwf hs).mpr hreach) waiting
    exact ⟨k', _, hbar⟩

end InTick

/-- The notices that name one sender are those about its job. -/
theorem Kernel.notices_filter_sender {k : Kernel σ} {l : List (Job σ)} (hjobs : k.Jobs l)
    (x : String) :
    ((k.notices l).filter fun m => m.sender = x)
      = k.notices (l.filter fun job => job.name = x) := by
  rw [notices, notices, List.filter_filterMap, List.filterMap_filter]
  refine List.filterMap_congr fun job hm => ?_
  obtain ⟨a, ha, hname⟩ := hjobs.object job hm
  by_cases hf : k.hasFailed job.ref = true
  · simp only [hf, if_true]
    cases hn : k.notice job.ref with
    | none => simp
    | some m =>
      obtain ⟨b, parent, p, hb, -, -, -, rfl⟩ := notice_eq_some_iff.mp hn
      rw [ha] at hb
      cases hb
      by_cases hx : job.name = x <;> simp [childFailed, hname, hx, Option.filter_some]
  · simp [hf]

/-- An agent that is FAILED after its step has concluded failed for good. -/
theorem InTick.permanent {code : AgentCode σ} {k : Kernel σ} {t : TickState σ} (h : InTick k t)
    {job : Job σ} (hjob : job ∈ t.jobs) (hsettled : job.phase.isSettled = true) {a : Agent σ}
    (ha : t.kernel.objects[job.ref]? = some a) (hfailed : (job.concluded code a).state = .failed) :
    job.phase.isFailed = true ∧ Kernel.mayRestart a = false ∧ job.concluded code a = a := by
  have hs := h.state_of_started hjob (Phase.not_isPending_of_isSettled hsettled) ha
  obtain ⟨calls, inbox, -, -, hsame, hstate⟩ | ⟨calls, inbox, -, -, -, hrest⟩
    | ⟨calls, inbox, hp, -, hmay, hsame⟩ := Job.concluded_cases code hsettled hs
  · rw [hsame, hstate] at hfailed
    rcases stateAfter_cases calls with hc | hc | hc <;> simp [hc, AgentState.settled] at hfailed
  · rw [hrest] at hfailed
    cases hfailed
  · exact ⟨by rw [hp]; rfl, hmay, hsame⟩

/-- Who is alive after the barrier. -/
theorem TickOutcome.survives {code : AgentCode σ} {k k' : Kernel σ} {t : TickState σ}
    {names : List String} (h : TickOutcome code k t k' names) (hin : InTick k t) {x : String}
    (hlive : k'.isLive x = true) : t.Survives x := by
  obtain ⟨p, hp, halive⟩ := Kernel.isLive_iff.mp hlive
  obtain ⟨ref, hreg, ho⟩ := Kernel.agent?_eq_some_iff.mp hp
  rw [h.agents] at hreg
  obtain ⟨b, hb, -⟩ := hin.wf x ref hreg
  refine ⟨ref, b, hreg, hb, ?_⟩
  by_cases hjob : ∃ job ∈ t.jobs, job.ref = ref
  · obtain ⟨job, hm, rfl⟩ := hjob
    rw [h.job job hm b hb] at ho
    cases ho
    unfold Job.concluded at halive
    by_cases hr : (job.phase.isFailed && Kernel.mayRestart b) = true
    · simp only [Bool.and_eq_true] at hr
      exact .inr ⟨hr.2, job, List.mem_filter.mpr ⟨hm, hr.1⟩, rfl⟩
    · rw [if_neg hr] at halive
      exact .inl halive
  · rw [h.others ref fun job hm he => hjob ⟨job, hm, he⟩, hb] at ho
    cases ho
    exact .inl halive

/-- **What the barrier owes it delivers**, if it does not raise. -/
theorem TickOutcome.prescribed {code : AgentCode σ} {k k' : Kernel σ} {t : TickState σ}
    {names : List String} (h : TickOutcome code k t k' names) (hin : InTick k t) (hwf : k.Wf)
    (hcomplete : t.isComplete = true) (hreach : t.ParentsReachable) {job : Job σ}
    (hjob : job ∈ t.jobs) {a : Agent σ}
    (ha : t.kernel.objects[job.ref]? = some a) :
    Prescribed code t k' (t.barrierLog code) job a := by
  have hobj := h.job job hjob a ha
  have hreclaimed : (∃ j ∈ t.jobs, j.name = job.name ∧ k'.isFinishedAt j = true)
      ↔ (job.concluded code a).isAlive = false := by
    constructor
    · rintro ⟨j, hj, hname, hfin⟩
      obtain rfl := List.inj_on_of_nodup_map (hin.names_nodup hwf) hj hjob hname
      exact (h.isFinishedAt_iff hjob ha).mp hfin
    · intro hdead
      exact ⟨job, hjob, rfl, (h.isFinishedAt_iff hjob ha).mpr hdead⟩
  have hjobs' : k'.Jobs t.casualties := by
    refine ⟨(hin.casualties hwf).refs, (hin.casualties hwf).names, fun j hj => ?_⟩
    obtain ⟨b, hb, hname⟩ := (hin.casualties hwf).object j hj
    exact ⟨_, h.job j (t.casualties_sublist.subset hj) b hb,
      (Job.concluded_name code j b).trans hname⟩
  -- the posted messages that name the job's agent
  have hsender : ∀ x, ((deliveredTo x (t.barrierLog code)).filter fun m => m.sender = job.name)
      = if x ∈ t.kernel.bus.mailboxes.keys then
          (k'.notices (t.casualties.filter fun j => j.name = job.name)).filter
            fun m => decide (m.addresses x)
        else [] := by
    intro x
    rw [h.posted]
    split
    · rw [← Kernel.notices_filter_sender hjobs', List.filter_filter, List.filter_filter]
      exact List.filter_congr fun m _ => Bool.and_comm _ _
    · rfl
  constructor
  case object => exact hobj
  case mailbox =>
    intro halive
    rw [h.box, if_neg (by rw [hreclaimed, halive]; simp), hin.requeued_of_job hwf hjob,
      Kernel.willRestart, ha]
    rfl
  case reclaimed =>
    intro hdead
    rw [h.box, if_pos (hreclaimed.mpr hdead)]
  case notified =>
    intro hfailed parent hparent hne hlive
    obtain ⟨hf, hmay, hsame⟩ :=
      hin.permanent hjob (TickState.isComplete_iff.mp hcomplete job hjob) ha hfailed
    have hbox : parent ∈ t.kernel.bus.mailboxes.keys :=
      (hreach job (List.mem_filter.mpr ⟨hjob, hf⟩) a ha hmay parent hparent
        (h.survives hin hlive)).resolve_left hne
    obtain ⟨p, hp, halive⟩ := Kernel.isLive_iff.mp hlive
    have hnotice : k'.notice job.ref = some (Kernel.childFailed parent a) :=
      Kernel.notice_eq_some_iff.mpr ⟨a, parent, p, hsame ▸ hobj, hparent, hp, halive, rfl⟩
    have hhas : k'.hasFailed job.ref = true := by simpa [Kernel.hasFailed, hobj] using hfailed
    rw [hsender, if_pos hbox, filter_eq_of_nodup_map (hin.casualties hwf).names
      (List.mem_filter.mpr ⟨hjob, hf⟩)]
    simp [Kernel.notices, hhas, hnotice, Kernel.childFailed, Message.addresses,
      Message.isBroadcast, hne]
  case silent =>
    intro hnot x
    rw [hsender]
    have hnone : k'.notices (t.casualties.filter fun j => j.name = job.name) = [] := by
      rw [Kernel.notices, List.filterMap_eq_nil_iff]
      intro j hj
      obtain ⟨hm, hname⟩ := List.mem_filter.mp hj
      obtain rfl := List.inj_on_of_nodup_map (hin.names_nodup hwf)
        (t.casualties_sublist.subset hm) hjob (of_decide_eq_true hname)
      rw [if_neg]
      simpa [Kernel.hasFailed, hobj] using hnot
    simp [hnone]

/-- **Failure isolation, exactly.** A tick whose agents raise nothing but
`Exception`s, on a backend that accepts them, returns its report and gives every
agent what its own policy prescribes exactly when no agent that is to be
restarted has an `on_restart` that raises, and the parents to be notified still
have their mailboxes. -/
theorem failure_isolation_iff {code : AgentCode σ} (hcode : code.Catchable) {k : Kernel σ}
    (hwf : k.Wf) {b : Backend} {loop : Bool} {sched : List Nat}
    (haccepted : k.refused code b loop = none) (hallow : k.Allows code b loop sched) :
    k.Isolates code b loop sched
      ↔ (k.tickWith code b loop sched).HooksReturn code
        ∧ (k.tickWith code b loop sched).ParentsReachable := by
  have hraises := Backend.raises_eq_none (hcode.exec hwf b.isAsync sched) b
  have hin := (InTick.begin hwf).exec hwf code b.isAsync sched
  have hcomplete := Kernel.isComplete_of_allows hallow haccepted hraises
  have htick := Kernel.tickWith_of_accepted haccepted sched
  rw [Kernel.Isolates, Kernel.stepWith_of_accepted haccepted hraises, htick,
    ← hin.barrier_ok_iff hwf k.waitingNames]
  constructor
  · rintro ⟨k', report, hbar, -⟩
    exact ⟨k', report, hbar⟩
  · intro hok
    obtain ⟨hr, hreach⟩ := (hin.barrier_ok_iff hwf k.waitingNames).mp hok
    obtain ⟨k', names, hbar, hout⟩ := hin.barrier_ok hwf hr
      (fun _ _ hs => (hin.accepts_notices_iff hwf hs).mpr hreach) k.waitingNames
    exact ⟨k', _, hbar, fun job hjob a ha => hout.prescribed hin hwf hcomplete hreach hjob ha,
      hout.others⟩

/-- A tick that the backend accepts comes to its end: no `BaseException` leaves a
step, no `on_restart` that the barrier calls raises, and the parents to be
notified can be written to. -/
structure TickState.ComesToEnd (code : AgentCode σ) (b : Backend) (t : TickState σ) : Prop where
  returns : b.raises t = none
  hooks : t.HooksReturn code
  parents : t.ParentsReachable

/-- **When a call of `step` returns.** -/
theorem Kernel.isOk_stepWith_iff {code : AgentCode σ} {k : Kernel σ} (hwf : k.Wf) {b : Backend}
    {loop : Bool} (haccepted : k.refused code b loop = none) (sched : List Nat) :
    (k.stepWith code b loop sched).2.isOk = true
      ↔ (k.tickWith code b loop sched).ComesToEnd code b := by
  have hin := (InTick.begin hwf).exec hwf code b.isAsync sched
  have hbarrier : (∃ k' report, (k.beginTick.exec code b.isAsync sched).barrier code k.waitingNames
      = (k', .ok report)) ↔ _ := hin.barrier_ok_iff hwf k.waitingNames
  rw [tickWith_of_accepted haccepted]
  cases hraises : b.raises (k.beginTick.exec code b.isAsync sched) with
  | some e =>
    rw [stepWith_of_raises haccepted hraises]
    refine iff_of_false Bool.false_ne_true fun h => ?_
    have hnone := h.returns
    rw [hraises] at hnone
    cases hnone
  | none =>
    rw [stepWith_of_accepted haccepted hraises]
    constructor
    · intro h
      obtain ⟨hhooks, hparents⟩ := hbarrier.mp (by
        generalize (k.beginTick.exec code b.isAsync sched).barrier code k.waitingNames = r at h
        obtain ⟨k', e | report⟩ := r
        · cases h
        · exact ⟨k', report, rfl⟩)
      exact ⟨hraises, hhooks, hparents⟩
    · rintro ⟨-, hhooks, hparents⟩
      obtain ⟨k', report, hbar⟩ := hbarrier.mpr ⟨hhooks, hparents⟩
      rw [hbar]
      rfl

/-! ## Agents that keep to `Context` -/

/-- Nobody takes a mailbox away from a parent in a tick of Context-only agents. -/
theorem ContextTick.parentsReachable {k : Kernel σ} {t : TickState σ} {log : List Delivery}
    (h : ContextTick k t log) (hwf : k.Wf) (haddr : k.Addressable) : t.ParentsReachable := by
  rintro job - a - - parent - ⟨ref, b, hreg, hb, hor⟩
  refine .inr (h.hasBox haddr ?_)
  rcases hor with halive | ⟨-, job', hm, rfl⟩
  · exact h.live_or_joined hwf (Kernel.agent?_eq_some_iff.mpr ⟨ref, hreg, hb⟩) halive
  · have hjob := t.casualties_sublist.subset hm
    obtain ⟨c, hkreg, -⟩ := h.inTick.origin hwf hjob
    obtain rfl := h.inTick.wf.ref_inj hreg (h.registered _ _ hkreg)
    exact .inl (h.inTick.live hwf hjob).1

/-! ## One bad hook -/

/-- Scripted agents that never interrupt, with an `on_restart` that does what
`hook` says. -/
def hooked (hook : Option Exc) : AgentCode Script where
  step s _ _ _ := Script.prog (s.actions.filter (· ≠ .interrupt))
  onRestart s _ := (s, hook)
  isAsync s := s.async
  kind _ := "Script"
  saveState _ := ∅
  loadState s _ := .ok s

theorem hooked_catchable (hook : Option Exc) : (hooked hook).Catchable :=
  fun s _ _ _ => Script.prog_catchable (by simp)

theorem hooked_contextOnly (hook : Option Exc) : (hooked hook).ContextOnly :=
  fun _ _ _ _ => Script.prog_contextOnly _

theorem hooked_restartReturns (a : Agent Script) : Kernel.restartReturns (hooked none) a := by
  unfold Kernel.restartReturns AgentCode.restartOf
  split <;> rfl

/-- Two workers that crash and are to be restarted. -/
def crewOps : List (Op Script) :=
  [.register (Script.agent "first" Script.first_ne [.fail "crash"] .onFailure) none,
   .register (Script.agent "second" Script.second_ne [.fail "crash"] .onFailure) none]

theorem crewOps_accepted : (Kernel.replay scripted crewOps {}).isSome = true := by decide

def crew : Kernel Script := ((Kernel.replay scripted crewOps {}).get crewOps_accepted).2

theorem crew_sound : crew.Sound :=
  (Kernel.run_of_replay crewOps_accepted).sound scripted_contextOnly Kernel.sound_init

theorem failure_isolation_iff_crew : crew.Isolates (hooked none) .serial false [0, 0, 1, 1] := by
  have haccepted : crew.refused (hooked none) .serial false = none := by decide
  refine (failure_isolation_iff (hooked_catchable none) crew_sound.wf haccepted (by decide)).mpr
    ⟨fun _ _ a _ _ => hooked_restartReturns a, ?_⟩
  rw [Kernel.tickWith_of_accepted haccepted]
  exact (ContextTick.exec crew_sound.wf (hooked_contextOnly none) _ _).parentsReachable
    crew_sound.wf crew_sound.addressable

/-- **One bad hook takes down the tick**: `on_restart` of the first worker
raises, the step raises with it, and the second worker, whose own hook was never
called, is left FAILED. -/
theorem hook_breaks_isolation :
    crew.Addressable ∧ (hooked (some (.raised "ValueError" "hook"))).Catchable
      ∧ crew.refused (hooked (some (.raised "ValueError" "hook"))) .serial false = none
      ∧ crew.Allows (hooked (some (.raised "ValueError" "hook"))) .serial false [0, 0, 1, 1]
      ∧ ¬ crew.Isolates (hooked (some (.raised "ValueError" "hook"))) .serial false [0, 0, 1, 1]
      ∧ ((crew.stepWith (hooked (some (.raised "ValueError" "hook"))) .serial false
          [0, 0, 1, 1]).1.agent? "second").map Agent.state = some .failed := by
  refine ⟨crew_sound.addressable, hooked_catchable _, by decide, by decide, ?_, by decide⟩
  rintro ⟨k', report, hstep, -⟩
  have herr : (crew.stepWith (hooked (some (.raised "ValueError" "hook"))) .serial false
      [0, 0, 1, 1]).2.isOk = false := by decide
  rw [hstep] at herr
  cases herr

end TitoOS
