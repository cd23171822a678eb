import TitoOS.Persistence
import TitoOS.Script

/-!
# The snapshot guard

`Kernel.snapshot` takes a RUNNING agent for the sign that a tick is under way.
At every point of a tick the guard fires exactly when some agent inside its
step has called neither `ctx.wait()` nor `ctx.exit()` (`snapshot_refused_iff`),
since both calls overwrite the state the guard looks at.
-/

namespace TitoOS

variable {σ : Type}

namespace Kernel

theorem mem_runningNames {k : Kernel σ} (hwf : k.Wf) {x : String} :
    x ∈ k.runningNames ↔ ∃ a, k.agent? x = some a ∧ a.state = .running := by
  simp only [runningNames, List.mem_filterMap, Dict.mem_values_iff, agent?_eq_some_iff]
  constructor
  · rintro ⟨ref, ⟨y, hreg⟩, h⟩
    obtain ⟨a, ho, rfl⟩ := hwf y ref hreg
    simp only [ho] at h
    split at h
    · cases h
      exact ⟨a, ⟨ref, hreg, ho⟩, ‹_›⟩
    · cases h
  · rintro ⟨a, ⟨ref, hreg, ho⟩, hrun⟩
    obtain ⟨b, hb, rfl⟩ := hwf x ref hreg
    rw [ho] at hb
    cases hb
    exact ⟨ref, ⟨_, hreg⟩, by simp [ho, hrun]⟩

/-- `snapshot` raises `RuntimeError`. -/
def RefusesSnapshot (code : AgentCode σ) (k : Kernel σ) : Prop :=
  ∃ e, k.snapshot code = .error e ∧ e.cls = "RuntimeError"

/-- The guard looks for a RUNNING agent. -/
theorem refusesSnapshot_iff {k : Kernel σ} (hwf : k.Wf) (code : AgentCode σ) :
    k.RefusesSnapshot code ↔ ∃ x a, k.agent? x = some a ∧ a.state = .running := by
  have hnames : k.runningNames ≠ [] ↔ ∃ x a, k.agent? x = some a ∧ a.state = .running := by
    constructor
    · intro hne
      obtain ⟨x, hx⟩ := List.exists_mem_of_ne_nil _ hne
      exact ⟨x, (mem_runningNames hwf).mp hx⟩
    · rintro ⟨x, hx⟩
      exact List.ne_nil_of_mem ((mem_runningNames hwf).mpr hx)
  rw [← hnames, RefusesSnapshot, snapshot]
  cases hempty : k.runningNames.isEmpty with
  | true => simp [List.isEmpty_iff.mp hempty]
  | false =>
    have hne : k.runningNames ≠ [] := by simpa using hempty
    simp [hne, Exc.cls]

end Kernel

/-- **The snapshot guard, exactly.** At every point of a tick, `snapshot` raises
exactly when some agent inside its step has called neither `wait` nor `exit`, or
an aborted tick has left an agent RUNNING that has not been started again. -/
theorem snapshot_refused_iff {code : AgentCode σ} (hcode : code.ContextOnly) {k : Kernel σ}
    (hwf : k.Wf) (async : Bool) (sched : List Nat) :
    (k.beginTick.exec code async sched).kernel.RefusesSnapshot code
      ↔ (∃ job ∈ (k.beginTick.exec code async sched).jobs, job.phase.isInside = true
          ∧ Call.wait ∉ job.phase.calls ∧ Call.exit ∉ job.phase.calls)
        ∨ ∃ x a, k.agent? x = some a ∧ a.state = .running
          ∧ ∀ job ∈ (k.beginTick.exec code async sched).jobs, job.name = x →
              job.phase.isPending = true := by
  have h := ContextTick.exec hwf hcode async sched
  generalize k.beginTick.exec code async sched = t at h ⊢
  rw [Kernel.refusesSnapshot_iff h.inTick.wf]
  constructor
  · rintro ⟨x, a, hx, hrun⟩
    by_cases hnew : x ∈ k.agents.keys
    · obtain ⟨ref, hkreg⟩ := Dict.mem_keys_iff.mp hnew
      obtain ⟨a0, ha0, hko, -⟩ := hwf.agent? hkreg
      obtain ⟨ref', hreg, ho⟩ := Kernel.agent?_eq_some_iff.mp hx
      rw [h.registered x ref hkreg] at hreg
      cases hreg
      obtain ⟨a', ho', -, hpend⟩ := h.inTick.object ref a0 hko
      rw [ho] at ho'
      cases ho'
      by_cases hall : ∀ job ∈ t.jobs, job.ref = ref → job.phase.isPending = true
      · -- untouched so far: it was RUNNING when the tick began
        right
        refine ⟨x, a0, ha0, hpend hall ▸ hrun, fun job hjob hname => hall job hjob ?_⟩
        obtain ⟨b, hjreg, -⟩ := h.inTick.origin hwf hjob
        rw [hname, hkreg] at hjreg
        exact (Option.some.inj hjreg).symm
      · left
        push Not at hall
        obtain ⟨job, hjob, rfl, hstarted⟩ := hall
        have hs := h.inTick.state_of_started hjob (by simpa using hstarted) ho
        rw [hrun] at hs
        obtain ⟨hin, hcalls⟩ := Phase.isInside_of_state? hs
        exact ⟨job, hjob, hin, (stateAfter_eq_running_iff _).mp hcalls⟩
    · rw [(h.joined_fresh hx hnew).1] at hrun
      cases hrun
  · rintro (⟨job, hjob, hin, hcalls⟩ | ⟨x, a, hx, hrun, hall⟩)
    · obtain ⟨b, hkreg, -⟩ := h.inTick.origin hwf hjob
      obtain ⟨a, ho, ha⟩ := h.inTick.state job hjob _ (Phase.state?_of_isInside hin)
      refine ⟨job.name, a, Kernel.agent?_eq_some_iff.mpr ⟨_, h.registered _ _ hkreg, ho⟩, ?_⟩
      rw [ha]
      exact (stateAfter_eq_running_iff _).mpr hcalls
    · obtain ⟨ref, hreg, ho⟩ := Kernel.agent?_eq_some_iff.mp hx
      obtain ⟨a', ho', -, hpend⟩ := h.inTick.object ref a ho
      refine ⟨x, a', Kernel.agent?_eq_some_iff.mpr ⟨ref, h.registered x ref hreg, ho'⟩, ?_⟩
      rw [hpend fun job hjob href => hall job hjob ?_, hrun]
      obtain ⟨b, hjreg, -⟩ := h.inTick.origin hwf hjob
      exact hwf.ref_inj hjreg (href ▸ hreg)

/-! ## A snapshot from inside a step -/

/-- A worker with mail that calls `ctx.wait()` early in its step. -/
def napOps : List (Op Script) :=
  [.register (Script.agent "worker" Script.worker_ne [.wait, .send "worker" "again"]) none,
   .post "user" "worker" (.str "job")]

theorem napOps_accepted : (Kernel.replay scripted napOps {}).isSome = true := by decide

def nap : Kernel Script := ((Kernel.replay scripted napOps {}).get napOps_accepted).2

theorem nap_wf : nap.Wf :=
  ((Kernel.run_of_replay napOps_accepted).sound scripted_contextOnly Kernel.sound_init).wf

/-- Before the worker has called `wait` the guard fires. -/
theorem snapshot_refused_iff_started :
    (nap.beginTick.exec scripted false [0]).kernel.RefusesSnapshot scripted := by
  refine (snapshot_refused_iff scripted_contextOnly nap_wf false [0]).mpr (.inl ?_)
  have hsome : ∃ job, (nap.beginTick.exec scripted false [0]).jobs[0]? = some job
      ∧ job.phase.isInside = true ∧ job.phase.calls = [] := by
    refine ⟨_, (Option.some_get (by decide)).symm, by decide, by decide⟩
  obtain ⟨job, hjob, hin, hcalls⟩ := hsome
  exact ⟨job, List.mem_of_getElem? hjob, hin, by simp [hcalls], by simp [hcalls]⟩

/-- **The guard can be talked out of it**: inside its step, after `ctx.wait()`,
the worker gets a snapshot, and the message it is working on is in no mailbox
of it. -/
theorem snapshot_inside_step :
    ∃ s, (nap.beginTick.exec scripted false [0, 0]).kernel.snapshot scripted = .ok s
      ∧ s.mailboxes.keys = []
      ∧ (nap.beginTick.exec scripted false [0, 0]).jobs.map (fun job =>
          (job.phase.isInside, job.inbox.map Message.payload)) = [(true, [.str "job"])] := by
  refine ⟨_, rfl, by decide, by decide⟩

end TitoOS
