import TitoOS.Resaving

/-!
# Ticks that cannot be run

`Kernel.step` counts the tick and drains every live mailbox before it asks the
backend to run anything. What a call that raises leaves behind is therefore
right only by luck: never when the backend refuses the tick, and after an
escaped `BaseException` only if nobody still waiting for its turn had mail and
nobody was caught inside its step (`losesNothing_iff`).

This is about kernels whose backend has nothing left to run (`Unburdened`): a
tick that a `BaseException` has aborted may leave steps to the pool or the event
loop, which later calls then run along with their own.
-/

namespace TitoOS

variable {σ : Type}

/-! ## What a call that raises must not lose -/

/-- What was drained for the agents that were never started is back, ahead of
what has been delivered since. -/
def TickState.PutBack (t : TickState σ) (k' : Kernel σ) : Prop :=
  ∀ job ∈ t.jobs, job.phase.isPending = true →
    k'.bus.mailboxes.get? job.name = (t.kernel.bus.mailboxes.get? job.name).map (job.inbox ++ ·)

namespace Kernel

/-- No registered agent is RUNNING. -/
def NoneRunning (k : Kernel σ) : Prop := ∀ x a, k.agent? x = some a → a.state ≠ .running

/-- A call of `step` that raises loses nothing: drained mail is back, no agent is
left RUNNING, and a refused tick leaves tick, mailboxes and agents as they were. -/
def LosesNothing (code : AgentCode σ) (b : Backend) (loop : Bool) (sched : List Nat)
    (k : Kernel σ) : Prop :=
  ∀ k' e, k.stepWith code b loop sched = (k', .error e) →
    (k.tickWith code b loop sched).PutBack k' ∧ k'.NoneRunning
      ∧ ((k.refused code b loop).isSome = true →
          k'.tick = k.tick ∧ k'.bus = k.bus ∧ k'.agents = k.agents ∧ k'.objects = k.objects)

end Kernel

/-- Nobody loses anything if the tick ends here: who has not been started has no
mail to lose, and who is registered is not RUNNING, neither from this tick nor
from an earlier one that was aborted. -/
def TickState.Spared (k : Kernel σ) (t : TickState σ) : Prop :=
  ∀ job ∈ t.jobs,
    (job.phase.isPending = true → job.inbox = [] ∨ job.name ∉ t.kernel.bus.mailboxes.keys)
    ∧ (t.kernel.agents.get? job.name = some job.ref →
        (job.phase.isPending = true → ∀ a, k.objects[job.ref]? = some a → a.state ≠ .running)
        ∧ (job.phase.isInside = true →
            Call.wait ∈ job.phase.calls ∨ Call.exit ∈ job.phase.calls))

/-! ## What an aborted tick leaves over -/

/-- A tick that a step's `BaseException` has aborted leaves something to the
backend. The pool goes on with the other jobs it was handed; the event loop may
still hold their tasks and the `gather_all` that waits for them, which raises
again when the loop is run again. Jobs that are run inline are dropped. -/
def Backend.leavesOver (b : Backend) (t : TickState σ) : Bool :=
  match b with
  | .serial => false
  | .thread .. => decide (2 ≤ t.jobs.length)
      && t.jobs.any fun job => job.phase.isPending || job.phase.isRunning
  | .async => true

/-- The act is a call of `step` that leaves something over. -/
def Kernel.LeavesOver (code : AgentCode σ) (k : Kernel σ) : Act σ → Prop
  | .step b loop sched => k.refused code b loop = none
      ∧ (b.raises (k.tickWith code b loop sched)).isSome = true
      ∧ b.leavesOver (k.tickWith code b loop sched) = true
  | _ => False

/-- A kernel whose backend has nothing left to run: fresh or restored, and no call
of `step` since has left anything over. -/
inductive Kernel.Unburdened (code : AgentCode σ) : Kernel σ → Prop
  | init : Unburdened code {}
  | restored {factories : Dict String (AgentFactory σ)} {s : Snapshot} {k : Kernel σ} :
      Kernel.restore code factories s = .ok k → Unburdened code k
  | act {k k' : Kernel σ} {act : Act σ} : Unburdened code k → k.Performs code act k' →
      ¬ k.LeavesOver code act → Unburdened code k'

namespace Kernel

variable {code : AgentCode σ} {k : Kernel σ}

theorem Unburdened.wf (h : k.Unburdened code) : k.Wf := by
  induction h with
  | init => exact sound_init.wf
  | restored hrestore => exact wf_restore hrestore
  | act _ hperf _ ih => exact wf_of_performs (Runs.nil.snoc hperf) ih

/-- Acts that leave the kernel between two ticks leave nothing over. -/
theorem not_leavesOver_of_settles {act : Act σ} (h : k.Settles code act) :
    ¬ k.LeavesOver code act := by
  cases act with
  | register | unregister | post => exact id
  | step b loop sched =>
    rintro ⟨haccepted, hraises, -⟩
    obtain ⟨e, he⟩ := Option.isSome_iff_exists.mp hraises
    rw [tickWith_of_accepted haccepted] at he
    rcases h with hok | hrefused
    · rw [stepWith_of_raises haccepted he] at hok
      cases hok
    · rw [haccepted] at hrefused
      cases hrefused

/-- A kernel between two ticks has nothing left to run. -/
theorem Reached.unburdened {acts : List (Act σ)} (h : Reached code acts k) :
    k.Unburdened code := by
  refine Runs.invariant (I := Unburdened code) ?_ h .init
  rintro u act u' hu ⟨hperf, hsettles⟩
  exact hu.act hperf (not_leavesOver_of_settles hsettles)

end Kernel

/-! ## The state of the agents when a call raises -/

namespace InTick

variable {k : Kernel σ} {t : TickState σ}

/-- The job of a registered agent that was there when the tick began. -/
theorem job_of_running (h : InTick k t) (hwf : k.Wf) {x : String} {ref : Nat} {a : Agent σ}
    (hreg : k.agents.get? x = some ref) (ho : t.kernel.objects[ref]? = some a)
    (hrun : a.state = .running) : ∃ job ∈ t.jobs, job.name = x ∧ job.ref = ref := by
  obtain ⟨a0, ha0, hko, -⟩ := hwf.agent? hreg
  by_contra hno
  obtain ⟨a', ho', -, hpend⟩ := h.object ref a0 hko
  rw [ho] at ho'
  cases ho'
  have hsame : a = a0 := by
    refine hpend fun job hjob href => absurd ⟨job, hjob, ?_, href⟩ hno
    obtain ⟨b, hjreg, -⟩ := h.origin hwf hjob
    exact hwf.ref_inj hjreg (href ▸ hreg)
  have halive : a0.isAlive = true := by
    rw [← hsame]
    simp [Agent.isAlive, AgentState.isAlive, hrun]
  rcases h.scheduled_or_idle hwf ha0 halive with ⟨job, hjob, hname⟩ | ⟨hw, -⟩
  · obtain ⟨b, hjreg, -⟩ := h.origin hwf hjob
    rw [hname, hreg] at hjreg
    exact hno ⟨job, hjob, hname, (Option.some.inj hjreg).symm⟩
  · rw [← hsame, hrun] at hw
    cases hw

/-- **When nobody is RUNNING.** -/
theorem noneRunning_iff (h : InTick k t) (hwf : k.Wf) :
    t.kernel.NoneRunning ↔ ∀ job ∈ t.jobs, t.kernel.agents.get? job.name = some job.ref →
      (job.phase.isPending = true → ∀ a, k.objects[job.ref]? = some a → a.state ≠ .running)
      ∧ (job.phase.isInside = true →
          Call.wait ∈ job.phase.calls ∨ Call.exit ∈ job.phase.calls) := by
  -- an agent whose step was not started is as it was before the tick
  have hown : ∀ job ∈ t.jobs, ∀ a, k.objects[job.ref]? = some a → job.phase.isPending = true →
      t.kernel.objects[job.ref]? = some a := by
    intro job hjob a ha hpending
    obtain ⟨a', ho', -, hpend⟩ := h.object _ a ha
    rw [ho', hpend fun job' hjob' href => ?_]
    rwa [List.inj_on_of_nodup_map (h.refs_nodup hwf) hjob' hjob href]
  constructor
  · intro hnone job hjob hreg
    refine ⟨fun hpending a ha => ?_, fun hin => ?_⟩
    · exact hnone job.name a (Kernel.agent?_eq_some_iff.mpr ⟨_, hreg, hown job hjob a ha hpending⟩)
    · obtain ⟨a, ho, hs⟩ := h.state job hjob _ (Phase.state?_of_isInside hin)
      have := hnone job.name a (Kernel.agent?_eq_some_iff.mpr ⟨_, hreg, ho⟩)
      rw [hs, Ne, stateAfter_eq_running_iff] at this
      tauto
  · intro hall x a hx hrun
    obtain ⟨ref, hreg, ho⟩ := Kernel.agent?_eq_some_iff.mp hx
    rcases h.registry x ref hreg with hkreg | hnew
    · obtain ⟨job, hjob, rfl, rfl⟩ := h.job_of_running hwf hkreg ho hrun
      obtain ⟨hpend, hin⟩ := hall job hjob hreg
      obtain ⟨b, -, hkob, -⟩ := h.origin hwf hjob
      cases hp : job.phase.isPending with
      | true =>
        have := hown job hjob b hkob hp
        rw [ho] at this
        cases this
        exact hpend hp a hkob hrun
      | false =>
        have hs := h.state_of_started hjob hp ho
        rw [hrun] at hs
        obtain ⟨hinside, hafter⟩ := Phase.isInside_of_state? hs
        obtain ⟨hw, he⟩ := (stateAfter_eq_running_iff _).mp hafter
        exact (hin hinside).elim hw he
    · rw [(h.fresh ref a hnew ho).1] at hrun
      cases hrun

/-- Once every step has ended nobody is RUNNING. -/
theorem noneRunning_of_complete (h : InTick k t) (hwf : k.Wf) (hcomplete : t.isComplete = true) :
    t.kernel.NoneRunning := by
  refine (h.noneRunning_iff hwf).mpr fun job hjob _ => ?_
  have := TickState.isComplete_iff.mp hcomplete job hjob
  cases hp : job.phase <;> simp_all [Phase.isSettled, Phase.isPending, Phase.isInside]

end InTick

namespace Kernel

/-! ## A barrier that raises -/

/-- The barrier makes nobody RUNNING. -/
theorem NoneRunning.of_kept {jobs : List (Job σ)} {k k' : Kernel σ} (h : k.NoneRunning)
    (hkept : Kept jobs k k') : k'.NoneRunning := by
  intro x a hx hrun
  obtain ⟨ref, hreg, ho⟩ := agent?_eq_some_iff.mp hx
  rw [hkept.agents] at hreg
  rcases hkept.object ref with hsame | ⟨-, b, a', hb, ha', -, -, hstate⟩
  · exact h x a (agent?_eq_some_iff.mpr ⟨ref, hreg, hsame ▸ ho⟩) hrun
  · rw [ho] at ha'
    cases ha'
    rcases hstate with hready | hsame
    · rw [hready] at hrun
      cases hrun
    · exact h x b (agent?_eq_some_iff.mpr ⟨ref, hreg, hb⟩) (hsame ▸ hrun)

/-- A barrier that raises leaves nobody RUNNING. -/
theorem NoneRunning.barrier {code : AgentCode σ} {t : TickState σ} (h : t.kernel.NoneRunning)
    {waiting : List String} {k' : Kernel σ} {e : Exc}
    (hbar : t.barrier code waiting = (k', .error e)) : k'.NoneRunning := by
  have hkept := kept_barrier code waiting t
  rw [hbar] at hkept
  exact h.of_kept hkept

end Kernel

/-- **When a call that raises loses nothing**, on a kernel whose backend has
nothing left to run: exactly when the backend accepts the tick and, should a
`BaseException` escape from a step, everybody is spared. -/
theorem losesNothing_iff {code : AgentCode σ} {k : Kernel σ} (hrested : k.Unburdened code)
    {b : Backend} {loop : Bool} {sched : List Nat} (hallow : k.Allows code b loop sched) :
    k.LosesNothing code b loop sched
      ↔ k.refused code b loop = none
        ∧ ((b.raises (k.tickWith code b loop sched)).isSome = true →
            (k.tickWith code b loop sched).Spared k) := by
  have hwf := hrested.wf
  cases hrefused : k.refused code b loop with
  | some e =>
    -- a refused tick has been counted already
    have hstep := Kernel.stepWith_of_refused hrefused sched
    refine ⟨fun h => ?_, fun h => absurd h.1 (by simp)⟩
    have htick := ((h _ _ hstep).2.2 (by simp [hrefused])).1
    rw [Kernel.beginTick_tick] at htick
    omega
  | none =>
    have hin := (InTick.begin hwf).exec hwf code b.isAsync sched
    rw [Kernel.tickWith_of_accepted hrefused]
    have hspared : (k.beginTick.exec code b.isAsync sched).Spared k
        ↔ (k.beginTick.exec code b.isAsync sched).PutBack
            (k.beginTick.exec code b.isAsync sched).kernel
          ∧ (k.beginTick.exec code b.isAsync sched).kernel.NoneRunning := by
      rw [hin.noneRunning_iff hwf]
      unfold TickState.Spared TickState.PutBack
      rw [← forall₂_and]
      refine forall₂_congr fun job _ => and_congr_left fun _ => ?_
      refine imp_congr_right fun _ => ?_
      rw [← Dict.get?_eq_none_iff]
      cases (k.beginTick.exec code b.isAsync sched).kernel.bus.mailboxes.get? job.name <;> simp
    simp only [true_and]
    constructor
    · intro h hraises
      obtain ⟨e, he⟩ := Option.isSome_iff_exists.mp hraises
      have hlost := h _ _ (Kernel.stepWith_of_raises hrefused he)
      rw [Kernel.tickWith_of_accepted hrefused] at hlost
      exact hspared.mpr ⟨hlost.1, hlost.2.1⟩
    · intro h k' e hstep
      rw [Kernel.tickWith_of_accepted hrefused]
      cases hraises : b.raises (k.beginTick.exec code b.isAsync sched) with
      | some e' =>
        rw [Kernel.stepWith_of_raises hrefused hraises] at hstep
        cases hstep
        obtain ⟨hput, hnone⟩ := hspared.mp (h (by simp [hraises]))
        exact ⟨hput, hnone, by simp [hrefused]⟩
      | none =>
        -- the barrier raised: every step has ended
        have hcomplete := Kernel.isComplete_of_allows hallow hrefused hraises
        rw [Kernel.stepWith_of_accepted hrefused hraises] at hstep
        refine ⟨fun job hjob hpending => ?_,
          (hin.noneRunning_of_complete hwf hcomplete).barrier hstep,
          by simp [hrefused]⟩
        have hstarted := Phase.not_isPending_of_isSettled
          (TickState.isComplete_iff.mp hcomplete job hjob)
        rw [hpending] at hstarted
        cases hstarted

theorem crew_unburdened (hook : Option Exc) : crew.Unburdened (hooked hook) := by
  have haccepted : (Kernel.replay (hooked hook) crewOps {}).isSome = true := rfl
  exact (Kernel.reached_of_replay haccepted).unburdened

/-- The hook of the first worker raises, but no mail is lost and nobody is left
RUNNING. -/
theorem losesNothing_iff_crew :
    crew.LosesNothing (hooked (some (.raised "ValueError" "hook"))) .serial false [0, 0, 1, 1] :=
  (losesNothing_iff (crew_unburdened _) (by decide)).mpr
    ⟨by decide, fun h => absurd h (by decide)⟩

/-! ## A refused tick -/

/-- **A refused tick loses mail**: `SerialBackend` rejects the `async` agent, and
by then the tick has been counted and the worker's mail is gone. -/
theorem refusal_loses_mail :
    mixed.Unburdened scripted ∧ mixed.Allows scripted .serial false []
      ∧ ¬ mixed.LosesNothing scripted .serial false []
      ∧ mixed.inboxOf "worker"
          = [{ sender := "user", recipient := "worker", payload := .str "job" }]
      ∧ (mixed.stepWith scripted .serial false []).1.inboxOf "worker" = []
      ∧ mixed.tick = 0 ∧ (mixed.stepWith scripted .serial false []).1.tick = 1 := by
  refine ⟨(Kernel.reached_of_replay mixedOps_accepted).unburdened, by decide, fun h => ?_,
    by decide, by decide, by decide, by decide⟩
  have herr : ∃ k' e, mixed.stepWith scripted .serial false [] = (k', .error e)
      ∧ k'.tick = 1 := ⟨_, _, rfl, by decide⟩
  obtain ⟨k', e, hstep, htick⟩ := herr
  have := ((h k' e hstep).2.2 (by decide)).1
  rw [htick] at this
  revert this
  decide

end TitoOS
