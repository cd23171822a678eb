import TitoOS.Script

/-!
# Supervision accounting

The error log, the restart counter, the lifecycle state and the reports of an
agent tell one story (`Account`): each failure is either a restart or the one
failure that is permanent. The books are kept by every event of a run
(`Accounts`), and a finished agent is never touched again.
-/

namespace TitoOS

variable {σ : Type}

/-- How often the error log names `x`. -/
def Kernel.failuresOf (k : Kernel σ) (x : String) : Nat := (k.errors.map Prod.fst).count x

/-- How many reports of a history list `x` as restarted. -/
def restartsReported (x : String) (es : List (Event σ)) : Nat :=
  es.countP fun e => decide (x ∈ e.restarted)

@[simp] theorem restartsReported_append (x : String) (es fs : List (Event σ)) :
    restartsReported x (es ++ fs) = restartsReported x es + restartsReported x fs := by
  simp [restartsReported]

@[simp] theorem restartsReported_singleton (x : String) (e : Event σ) :
    restartsReported x [e] = if x ∈ e.restarted then 1 else 0 := by
  simp [restartsReported, List.countP_cons]

/-- The account of the agent `a` registered as `x`. -/
structure Account (es : List (Event σ)) (k : Kernel σ) (x : String) (a : Agent σ) : Prop where
  failures : (k.failuresOf x : Int) = a.restarts + if a.state = .failed then 1 else 0
  never : a.restartPolicy = .never → a.restarts = 0
  budget : a.restarts ≤ max 0 a.maxRestarts
  permanent : a.state = .failed → a.restartPolicy = .never ∨ a.maxRestarts ≤ a.restarts
  reported : (restartsReported x es : Int) = a.restarts

/-- The accounts of all agents are in order, and nothing is booked for a name
nobody has. -/
structure Accounts (es : List (Event σ)) (k : Kernel σ) : Prop where
  sound : k.Sound
  account : ∀ x a, k.agent? x = some a → Account es k x a
  unused : ∀ x, x ∉ k.agents.keys → k.failuresOf x = 0 ∧ restartsReported x es = 0

/-- A new agent's account. -/
theorem Account.fresh {es : List (Event σ)} {k : Kernel σ} {x : String} {a : Agent σ}
    (hready : a.state = .ready) (hzero : a.restarts = 0) (hfail : k.failuresOf x = 0)
    (hrep : restartsReported x es = 0) : Account es k x a where
  failures := by simp [hready, hzero, hfail]
  never := fun _ => hzero
  budget := by simp [hzero]
  permanent := by simp [hready]
  reported := by simp [hzero, hrep]

namespace TickRun

variable {code : AgentCode σ} {k k' : Kernel σ} {t : TickState σ} {sent : List Delivery}
  {names : List String}

/-- The error log names the casualties of the tick once more each. -/
theorem failuresOf_eq (h : TickRun code k t sent k' names) (x : String) :
    k'.failuresOf x = k.failuresOf x + (t.casualties.map Job.name).count x := by
  obtain ⟨errs, herr, hperm⟩ := h.point.inTick.errors
  rw [Kernel.failuresOf, h.outcome.errors, herr, List.map_append, List.count_append,
    hperm.count_eq, Kernel.failuresOf]

theorem count_casualties_of_no_job {t : TickState σ} {x : String}
    (hno : ∀ job ∈ t.jobs, job.name ≠ x) : (t.casualties.map Job.name).count x = 0 := by
  rw [List.count_eq_zero, List.mem_map]
  rintro ⟨job, hm, hname⟩
  exact hno job (List.mem_filter.mp hm).1 hname

theorem count_casualties_of_job (h : TickRun code k t sent k' names) (hwf : k.Wf) {job : Job σ}
    (hjob : job ∈ t.jobs) :
    (t.casualties.map Job.name).count job.name = if job.phase.isFailed then 1 else 0 := by
  have hnames := h.point.inTick.names_nodup hwf
  cases hf : job.phase.isFailed with
  | true =>
    exact List.count_eq_one_of_mem (hnames.sublist (t.casualties_sublist.map _))
      (List.mem_map_of_mem (List.mem_filter.mpr ⟨hjob, hf⟩))
  | false =>
    rw [if_neg Bool.false_ne_true, List.count_eq_zero, TickState.casualties,
      mem_map_filter_of_nodup_map hnames hjob, hf]
    exact Bool.false_ne_true

/-- **The account of one agent over a tick.** -/
theorem account (h : TickRun code k t sent k' names) (hwf : k.Wf) {es : List (Event σ)}
    {x : String} {a a' : Agent σ} (ha : k.agent? x = some a) (hacc : Account es k x a)
    {log : List Delivery} {report : TickReport} (hrep : report.restarted = names)
    (ha' : k'.agent? x = some a') : Account (es ++ [.ticked t log report]) k' x a' := by
  have hcount : restartsReported x (es ++ [.ticked t log report])
      = restartsReported x es + if x ∈ names then 1 else 0 := by
    simp [Event.restarted, hrep]
  have hnever := hacc.never
  have hbudget := hacc.budget
  have hfailures := hacc.failures
  rcases h.fate hwf ha with ⟨hno, hsame⟩ | ⟨job, hjob, rfl, halive, -, a1, ho1, hsame, hstate, hc⟩
  · rw [ha'] at hsame
    cases hsame
    refine ⟨?_, hacc.never, hacc.budget, hacc.permanent, ?_⟩
    · rw [h.failuresOf_eq, count_casualties_of_no_job hno, Nat.add_zero]
      exact hacc.failures
    · rw [hcount, if_neg (h.not_mem_restarted hno)]
      exact hacc.reported
  · rw [ha'] at hc
    have hpolicy : a1.restartPolicy = a.restartPolicy := by rw [hsame]
    have hmax : a1.maxRestarts = a.maxRestarts := by rw [hsame]
    have hrestarts : a1.restarts = a.restarts := by rw [hsame]
    have hnotfailed : a.state ≠ .failed := by
      intro hf
      simp [Agent.isAlive, AgentState.isAlive, hf] at halive
    rw [if_neg hnotfailed] at hfailures
    have hmem := h.mem_restarted_iff hwf hjob ho1
    have hfail := h.failuresOf_eq job.name
    rw [h.count_casualties_of_job hwf hjob] at hfail
    have hreported := hacc.reported
    obtain ⟨calls, inbox, -, hf, hsame', hs⟩ | ⟨calls, inbox, hp, hs, hm, hrest⟩
      | ⟨calls, inbox, hp, hs, hm, hsame'⟩ :=
      Job.concluded_cases code (h.settled hjob) hstate
    · -- the step returned
      rw [hsame'] at hc
      cases hc
      have hs' : a'.state ≠ .failed := by
        rw [hs]
        rcases stateAfter_cases calls with hc | hc | hc <;> simp [hc, AgentState.settled]
      refine ⟨?_, ?_, ?_, fun hf' => absurd hf' hs', ?_⟩
      · rw [hfail, hf, if_neg hs', hrestarts]
        simpa using hfailures
      · rw [hpolicy, hrestarts]; exact hnever
      · rw [hrestarts, hmax]; exact hbudget
      · rw [hcount, if_neg fun hn => by simp [(hmem.mp hn).1] at hf, hrestarts]
        simpa using hreported
    · -- the step failed and the agent is restarted
      rw [hrest] at hc
      cases hc
      have hf : job.phase.isFailed = true := by rw [hp]; rfl
      have hmay : a.restartPolicy = .onFailure ∧ a.restarts < a.maxRestarts := by
        simpa [Kernel.mayRestart, hpolicy, hmax, hrestarts] using hm
      refine ⟨?_, ?_, ?_, ?_, ?_⟩
      · rw [hfail, hf]
        simp [Kernel.restarted, hrestarts, hfailures]
      · intro hn
        rw [show a1.restartPolicy = .never from hn] at hpolicy
        rw [← hpolicy] at hmay
        cases hmay.1
      · simp only [Kernel.restarted, hrestarts, hmax]
        omega
      · intro hfs
        cases hfs
      · rw [hcount, if_pos (hmem.mpr ⟨hf, hm⟩)]
        simp [Kernel.restarted, hrestarts, hreported]
    · -- the step failed for good
      rw [hsame'] at hc
      cases hc
      have hf : job.phase.isFailed = true := by rw [hp]; rfl
      refine ⟨?_, ?_, ?_, fun _ => ?_, ?_⟩
      · rw [hfail, hf, hs, hrestarts]
        simpa using hfailures
      · rw [hpolicy, hrestarts]; exact hnever
      · rw [hrestarts, hmax]; exact hbudget
      · cases hpol : a'.restartPolicy with
        | never => exact .inl rfl
        | onFailure =>
          right
          simpa [Kernel.mayRestart, hpol] using hm
      · rw [hcount, if_neg fun hn => by simp [(hmem.mp hn).2] at hm, hrestarts]
        simpa using hreported

end TickRun

/-! ## Whole runs -/

namespace Accounts

variable {es : List (Event σ)} {k k' : Kernel σ}

theorem init : Accounts ([] : List (Event σ)) {} where
  sound := Kernel.sound_init
  account := fun x a h => by simp [Kernel.agent?] at h
  unused := fun x _ => ⟨rfl, rfl⟩

/-- An event that neither records a failure nor reports a restart keeps the
accounts of the agents that were there. -/
theorem account_of_quiet (hacc : Accounts es k) (e : Event σ) (he : e.restarted = [])
    (k' : Kernel σ) (herr : k'.errors = k.errors) {x : String} {a : Agent σ}
    (hx : k.agent? x = some a) : Account (es ++ [e]) k' x a := by
  have h := hacc.account x a hx
  refine ⟨?_, h.never, h.budget, h.permanent, ?_⟩
  · rw [Kernel.failuresOf, herr]
    exact h.failures
  · rw [restartsReported_append, restartsReported_singleton, he]
    simpa using h.reported

theorem unused_of_quiet (hacc : Accounts es k) (e : Event σ) (he : e.restarted = [])
    (k' : Kernel σ) (herr : k'.errors = k.errors) {x : String} (hx : x ∉ k.agents.keys) :
    k'.failuresOf x = 0 ∧ restartsReported x (es ++ [e]) = 0 := by
  obtain ⟨hf, hr⟩ := hacc.unused x hx
  refine ⟨?_, ?_⟩
  · rw [Kernel.failuresOf, herr]
    exact hf
  · rw [restartsReported_append, restartsReported_singleton, he, hr]
    rfl

theorem register (hacc : Accounts es k) {a : FreshAgent σ} {p : Option String}
    (h : k.register a p = .ok k') : Accounts (es ++ [.registered a p]) k' := by
  have hagent := Kernel.agent?_register hacc.sound.wf h
  have hsound := hacc.sound.register h
  obtain ⟨hnew, rfl⟩ := Kernel.register_eq_ok_iff.mp h
  constructor
  case sound => exact hsound
  case account =>
    intro x b hb
    rw [hagent] at hb
    split at hb
    · rename_i hx
      cases hb
      obtain ⟨hf, hr⟩ := hacc.unused_of_quiet (.registered a p) rfl k rfl (hx ▸ hnew)
      exact .fresh (by simp) (by simp) hf hr
    · exact hacc.account_of_quiet _ (by rfl) _ (by rfl) hb
  case unused =>
    intro x hx
    refine hacc.unused_of_quiet _ (by rfl) _ (by rfl) fun hin => hx ?_
    simp [Dict.keys_set_of_not_mem hnew, hin]

theorem tick (hacc : Accounts es k) {code : AgentCode σ} {t : TickState σ}
    {sent log : List Delivery} {names : List String} {report : TickReport}
    (h : TickRun code k t sent k' names) (hrep : report.restarted = names) :
    Accounts (es ++ [.ticked t log report]) k' := by
  have hwf := hacc.sound.wf
  have hquiet : ∀ x, x ∉ k.agents.keys → (∀ job ∈ t.jobs, job.name ≠ x) →
      k'.failuresOf x = 0 ∧ restartsReported x (es ++ [.ticked t log report]) = 0 := by
    intro x hx hno
    obtain ⟨hf, hr⟩ := hacc.unused x hx
    refine ⟨?_, ?_⟩
    · rw [h.failuresOf_eq, TickRun.count_casualties_of_no_job hno, hf]
    · simp [Event.restarted, hrep, hr, h.not_mem_restarted hno]
  constructor
  case sound => exact h.sound hacc.sound
  case account =>
    intro x a' ha'
    rcases hwf.registered_or x with ⟨a, ha⟩ | hnew
    · exact h.account hwf ha (hacc.account x a ha) hrep ha'
    · obtain ⟨hready, hzero, -, hno⟩ := h.joined hwf ha' hnew
      obtain ⟨hf, hr⟩ := hquiet x hnew hno
      exact .fresh hready hzero hf hr
  case unused =>
    intro x hx
    obtain ⟨hold, hno⟩ := h.not_registered hwf hx
    exact hquiet x hold hno

end Accounts

/-- **The accounts are in order** in every run. -/
theorem Kernel.Run.accounts {code : AgentCode σ} (hcode : code.ContextOnly)
    {k : Kernel σ} {es : List (Event σ)} (h : Kernel.Run code {} es k) : Accounts es k := by
  refine Runs.invariant_history (I := Accounts) ?_ h .init
  intro es u e u' hu hnext
  cases hnext with
  | register hreg => exact hu.register hreg
  | post hpost =>
    have hsound := hu.sound.busPost hpost
    obtain ⟨bus, -, rfl⟩ := Kernel.busPost_eq_ok hpost
    exact ⟨hsound, fun x a hx => hu.account_of_quiet _ (by rfl) _ (by rfl) hx,
      fun x hx => hu.unused_of_quiet _ (by rfl) _ (by rfl) hx⟩
  | tick hallow hstep =>
    obtain ⟨sent, names, hrun, -, hrep, -⟩ :=
      tickRun_of_stepWith hcode hu.sound.wf hu.sound.addressable hallow hstep
    exact hu.tick hrun (by rw [hrep]; rfl)

/-- **A finished agent is left alone**: it is never stepped again and its object
never changes. -/
theorem Kernel.Run.finished {code : AgentCode σ} (hcode : code.ContextOnly)
    {k k' : Kernel σ} {es : List (Event σ)} (h : Kernel.Run code k es k') (hs : k.Sound)
    {x : String} {a : Agent σ} (hx : k.agent? x = some a) (hdead : a.isAlive = false) :
    k'.agent? x = some a ∧ ∀ e ∈ es, ∀ job ∈ e.jobs, job.name ≠ x := by
  have hinv := Runs.invariant_history
    (I := fun es u => u.Sound ∧ u.agent? x = some a ∧ ∀ e ∈ es, ∀ job ∈ e.jobs, job.name ≠ x)
    ?_ h ⟨hs, hx, by simp⟩
  · exact hinv.2
  rintro es u e u' ⟨hu, hux, hno⟩ hnext
  have hconcat : (∀ job ∈ e.jobs, job.name ≠ x) →
      ∀ e' ∈ es ++ [e], ∀ job ∈ e'.jobs, job.name ≠ x := by
    intro he e' hm
    rcases List.mem_append.mp hm with hm | hm
    · exact hno e' hm
    · obtain rfl := List.mem_singleton.mp hm
      exact he
  cases hnext with
  | register hreg =>
    refine ⟨hu.register hreg, ?_, hconcat (by simp [Event.jobs])⟩
    rw [agent?_register hu.wf hreg, if_neg, hux]
    rintro rfl
    exact (register_eq_ok_iff.mp hreg).1 (mem_keys_of_agent? hux)
  | post hpost =>
    refine ⟨hu.busPost hpost, ?_, hconcat (by simp [Event.jobs])⟩
    obtain ⟨bus, -, rfl⟩ := busPost_eq_ok hpost
    exact hux
  | tick hallow hstep =>
    obtain ⟨sent, names, hrun, -⟩ :=
      tickRun_of_stepWith hcode hu.wf hu.addressable hallow hstep
    rcases hrun.fate hu.wf hux with ⟨hnojob, hsame⟩ | ⟨job, -, -, halive, -⟩
    · exact ⟨hrun.sound hu, hsame, hconcat hnojob⟩
    · rw [hdead] at halive
      cases halive

/-- A worker that crashes in each of its four ticks. -/
def crashOps : List (Op Script) :=
  .register (Script.agent "worker" Script.worker_ne [.fail "crash"] .onFailure) none
    :: List.replicate 4 (.tick .serial [0, 0])

theorem crashOps_accepted : (Kernel.replay scripted crashOps {}).isSome = true := by decide

end TitoOS
