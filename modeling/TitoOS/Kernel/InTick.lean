import Mathlib.Data.List.Nodup
import TitoOS.Kernel.Boundary

/-!
# Invariants of a tick

What holds at every point of a tick, whatever the agents do and in whatever
order their actions happen (`InTick`): the jobs keep their identity and their
drained inbox, an object is untouched until its own step starts, its state is
the one its phase says, new objects are fresh, and the error log grows by one
entry for each failed step.
-/

namespace TitoOS

variable {σ : Type}

/-! ## Lists addressed by position -/

theorem eq_index_of_nodup_map {α β : Type} {f : α → β} {l : List α} (h : (l.map f).Nodup)
    {i j : Nat} {a b : α} (hi : l[i]? = some a) (hj : l[j]? = some b) (hab : f a = f b) :
    i = j := by
  obtain ⟨hlt, -⟩ := List.getElem?_eq_some_iff.mp hi
  refine (List.getElem?_inj (by simpa using hlt) h).mp ?_
  simp [hi, hj, hab]

theorem map_set_of_eq {α β : Type} {f : α → β} {l : List α} {i : Nat} {a b : α}
    (ha : l[i]? = some a) (hab : f b = f a) : (l.set i b).map f = l.map f := by
  obtain ⟨hlt, rfl⟩ := List.getElem?_eq_some_iff.mp ha
  rw [List.map_set, hab, ← List.map_set, List.set_getElem_self]

theorem filter_set_of_eq {α : Type} {p : α → Bool} {l : List α} {i : Nat} {a b : α}
    (ha : l[i]? = some a) (hpa : p a = false) (hpb : p b = false) :
    (l.set i b).filter p = l.filter p := by
  induction l generalizing i with
  | nil => rfl
  | cons c rest ih =>
    cases i with
    | zero =>
      cases ha
      simp [hpa, hpb]
    | succ i => simp [List.set, List.filter_cons, ih (i := i) (by simpa using ha)]

theorem filter_and_eq_of_nodup_map {α β : Type} [DecidableEq β] {f : α → β} {l : List α}
    (h : (l.map f).Nodup) {a : α} (ha : a ∈ l) (p : α → Bool) :
    (l.filter fun b => f b = f a && p b) = if p a then [a] else [] := by
  induction l with
  | nil => cases ha
  | cons c rest ih =>
    simp only [List.map_cons, List.nodup_cons] at h
    rcases List.mem_cons.mp ha with rfl | hm
    · have hrest : (rest.filter fun b => f b = f a && p b) = [] := by
        rw [List.filter_eq_nil_iff]
        intro b hb hp
        simp only [Bool.and_eq_true, decide_eq_true_eq] at hp
        exact h.1 (hp.1 ▸ List.mem_map_of_mem hb)
      cases hp : p a <;> simp [hp, hrest]
    · have hc : f c ≠ f a := fun he => h.1 (he ▸ List.mem_map_of_mem hm)
      simp [hc, ih h.2 hm]

theorem filter_eq_of_nodup_map {α β : Type} [DecidableEq β] {f : α → β} {l : List α}
    (h : (l.map f).Nodup) {a : α} (ha : a ∈ l) : (l.filter fun b => f b = f a) = [a] := by
  simpa using filter_and_eq_of_nodup_map h ha fun _ => true

/-- Under distinct names, a name is among those of a filtered list when its
bearer passes. -/
theorem mem_map_filter_of_nodup_map {α β : Type} {f : α → β} {l : List α} (h : (l.map f).Nodup)
    {a : α} (ha : a ∈ l) (p : α → Bool) : f a ∈ (l.filter p).map f ↔ p a = true := by
  rw [List.mem_map]
  constructor
  · rintro ⟨b, hmem, heq⟩
    obtain ⟨hb, hp⟩ := List.mem_filter.mp hmem
    obtain rfl := List.inj_on_of_nodup_map h hb ha heq
    exact hp
  · intro hp
    exact ⟨a, List.mem_filter.mpr ⟨ha, hp⟩, rfl⟩

theorem filter_set_perm {α : Type} {p : α → Bool} {l : List α} {i : Nat} {a b : α}
    (ha : l[i]? = some a) (hpa : p a = false) (hpb : p b = true) :
    ((l.set i b).filter p).Perm (b :: l.filter p) := by
  induction l generalizing i with
  | nil => cases ha
  | cons c rest ih =>
    cases i with
    | zero =>
      cases ha
      simp [hpa, hpb]
    | succ i =>
      have hrest := ih (i := i) (by simpa using ha)
      by_cases hc : p c = true
      · simpa [List.set, hc] using (hrest.cons c).trans (List.Perm.swap b c _)
      · simpa [List.set, hc] using hrest

/-! ## Moves of a tick -/

/-- The part of a job that no move changes. -/
def Job.fixed (job : Job σ) : Nat × String × List Message := (job.ref, job.name, job.inbox)

namespace TickState

theorem advance_of_some (code : AgentCode σ) (async : Bool) {i : Nat} {t : TickState σ}
    {job : Job σ} (h : t.jobs[i]? = some job) :
    t.advance code async i = {
      kernel := (t.kernel.moveJob code async job).1
      jobs := t.jobs.set i { job with phase := (t.kernel.moveJob code async job).2 } } := by
  simp [advance, h]

theorem advance_of_none {code : AgentCode σ} {async : Bool} {i : Nat} {t : TickState σ}
    (h : t.jobs[i]? = none) : t.advance code async i = t := by
  simp [advance, h]

/-- The jobs after a move: the moving one in its new phase, the others as they
were. -/
theorem getElem?_advance {code : AgentCode σ} {async : Bool} {i j : Nat} {t : TickState σ}
    {job : Job σ} (h : t.jobs[i]? = some job) :
    (t.advance code async i).jobs[j]?
      = if j = i then some { job with phase := (t.kernel.moveJob code async job).2 }
        else t.jobs[j]? := by
  obtain ⟨hlt, -⟩ := List.getElem?_eq_some_iff.mp h
  rw [advance_of_some code async h]
  by_cases hj : j = i
  · subst hj; simp [hlt]
  · simp [hj, Ne.symm hj]

theorem getElem?_advance_ne {i j : Nat} (h : j ≠ i) (code : AgentCode σ) (async : Bool)
    (t : TickState σ) : (t.advance code async i).jobs[j]? = t.jobs[j]? := by
  cases hi : t.jobs[i]? with
  | none => rw [advance_of_none hi]
  | some job => rw [getElem?_advance hi, if_neg h]

/-- What holds of the job that moved and of all jobs before holds of all jobs
after. -/
theorem forall_advance {code : AgentCode σ} {async : Bool} {i : Nat} {t : TickState σ}
    {job : Job σ} (h : t.jobs[i]? = some job) {P : Job σ → Prop} (hall : ∀ job ∈ t.jobs, P job)
    (hmoved : P { job with phase := (t.kernel.moveJob code async job).2 }) :
    ∀ job' ∈ (t.advance code async i).jobs, P job' := by
  intro job' hmem
  obtain ⟨j, hj⟩ := List.mem_iff_getElem?.mp hmem
  rw [getElem?_advance h] at hj
  split at hj
  · cases hj
    exact hmoved
  · exact hall job' (List.mem_of_getElem? hj)

/-- What every action keeps holds of all jobs at any point of the tick. -/
theorem forall_exec {code : AgentCode σ} {async : Bool} {t : TickState σ} {P : Job σ → Prop}
    (h : ∀ job ∈ t.jobs, P job)
    (hmove : ∀ (u : Kernel σ) (job : Job σ), P job →
      P { job with phase := (u.moveJob code async job).2 }) (sched : List Nat) :
    ∀ job ∈ (t.exec code async sched).jobs, P job := by
  refine Schedule.exec_induction (I := fun u : TickState σ => ∀ job ∈ u.jobs, P job)
    (fun i u hu => ?_) sched h
  cases hi : u.jobs[i]? with
  | none => rwa [advance_of_none hi]
  | some job => exact forall_advance hi hu (hmove _ job (hu job (List.mem_of_getElem? hi)))

theorem kernel_advance {code : AgentCode σ} {async : Bool} {i : Nat} {t : TickState σ}
    {job : Job σ} (h : t.jobs[i]? = some job) :
    (t.advance code async i).kernel = (t.kernel.moveJob code async job).1 := by
  rw [advance_of_some code async h]

/-- What every action keeps of the kernel holds at any point of the tick. -/
theorem kernel_exec {code : AgentCode σ} {async : Bool} {t : TickState σ} {P : Kernel σ → Prop}
    (hmove : ∀ (u : Kernel σ) (job : Job σ), P u → P (u.moveJob code async job).1)
    (h : P t.kernel) (sched : List Nat) : P (t.exec code async sched).kernel := by
  refine Schedule.exec_induction (I := fun u : TickState σ => P u.kernel) (fun i u hu => ?_)
    sched h
  cases hi : u.jobs[i]? with
  | none => rwa [advance_of_none hi]
  | some job => exact kernel_advance hi ▸ hmove u.kernel job hu

theorem stopReason_exec (code : AgentCode σ) (async : Bool) (sched : List Nat) (t : TickState σ) :
    (t.exec code async sched).kernel.stopReason = t.kernel.stopReason := by
  refine kernel_exec (P := fun u => u.stopReason = t.kernel.stopReason) (fun u job hu => ?_) rfl
    sched
  rw [(u.moveJob_effect code async job (r := true) (by simp)).stopReason_eq, hu]

theorem fixed_advance (code : AgentCode σ) (async : Bool) (i : Nat) (t : TickState σ) :
    (t.advance code async i).jobs.map Job.fixed = t.jobs.map Job.fixed := by
  cases h : t.jobs[i]? with
  | none => rw [advance_of_none h]
  | some job =>
    rw [advance_of_some code async h]
    exact map_set_of_eq h rfl

theorem fixed_exec (code : AgentCode σ) (async : Bool) (sched : List Nat) (t : TickState σ) :
    (t.exec code async sched).jobs.map Job.fixed = t.jobs.map Job.fixed :=
  Schedule.exec_induction (I := fun u : TickState σ => u.jobs.map Job.fixed = t.jobs.map Job.fixed)
    (fun i u hu => (fixed_advance code async i u).trans hu) sched rfl

theorem moveFailures_cases (job : Job σ) :
    job.moveFailures = [] ∨ ∃ e, job.moveFailures = [(job.name, e)] := by
  unfold Job.moveFailures
  cases job.phase with
  | running calls inbox p =>
    cases p with
    | raise e => cases h : e.isException <;> simp [h]
    | _ => simp
  | _ => simp

/-- A move adds its job to the casualties exactly when it records a failure. -/
theorem casualties_advance {code : AgentCode σ} {async : Bool} {i : Nat} {t : TickState σ}
    {job : Job σ} (h : t.jobs[i]? = some job) :
    ((t.advance code async i).casualties.map Job.name).Perm
      (t.casualties.map Job.name ++ job.moveFailures.map Prod.fst) := by
  have hfailed := t.kernel.moveJob_isFailed code async job
  rw [advance_of_some code async h]
  simp only [casualties]
  cases hf : job.phase.isFailed with
  | true =>
    have hnone : job.moveFailures = [] := by
      unfold Job.moveFailures
      cases hp : job.phase <;> simp_all [Phase.isFailed]
    have hsame : (t.kernel.moveJob code async job).2 = job.phase := by
      unfold Kernel.moveJob
      cases hp : job.phase <;> simp_all [Phase.isFailed]
    have hset : t.jobs.set i { job with phase := job.phase } = t.jobs := by
      obtain ⟨hlt, rfl⟩ := List.getElem?_eq_some_iff.mp h
      exact List.set_getElem_self hlt
    rw [hsame, hset, hnone]
    simp
  | false =>
    rw [hf, Bool.false_or] at hfailed
    rcases moveFailures_cases job with hm | ⟨e, hm⟩
    · rw [hm] at hfailed
      rw [filter_set_of_eq (p := fun j => j.phase.isFailed) h hf hfailed, hm]
      simp
    · rw [hm] at hfailed
      have hset := filter_set_perm (p := fun j : Job σ => j.phase.isFailed) (b :=
        { job with phase := (t.kernel.moveJob code async job).2 }) h hf hfailed
      rw [hm]
      exact (hset.map Job.name).trans (List.perm_append_singleton _ _).symm

/-- Induction over a schedule, with what it delivers. -/
theorem exec_log_induction {code : AgentCode σ} {async : Bool}
    {I : TickState σ → List Delivery → Prop}
    (hstep : ∀ i u l, I u l → I (u.advance code async i) (l ++ u.deliveries i))
    (sched : List Nat) {t : TickState σ} (h : I t []) :
    I (t.exec code async sched) (t.log code async sched) := by
  simpa [exec, log] using Schedule.exec_emitted_induction hstep sched h

theorem map_ref_of_fixed {l m : List (Job σ)} (h : l.map Job.fixed = m.map Job.fixed) :
    l.map Job.ref = m.map Job.ref := by
  simpa [List.map_map, Function.comp_def, Job.fixed] using congrArg (List.map Prod.fst) h

theorem map_name_of_fixed {l m : List (Job σ)} (h : l.map Job.fixed = m.map Job.fixed) :
    l.map Job.name = m.map Job.name := by
  simpa [List.map_map, Function.comp_def, Job.fixed] using
    congrArg (List.map fun e => e.2.1) h

theorem exists_of_fixed {l m : List (Job σ)} (h : l.map Job.fixed = m.map Job.fixed)
    {job : Job σ} (hj : job ∈ l) :
    ∃ job' ∈ m, job'.ref = job.ref ∧ job'.name = job.name ∧ job'.inbox = job.inbox := by
  have hmem : job.fixed ∈ m.map Job.fixed := h ▸ List.mem_map_of_mem hj
  obtain ⟨job', hm, heq⟩ := List.mem_map.mp hmem
  simp only [Job.fixed, Prod.mk.injEq] at heq
  exact ⟨job', hm, heq⟩

end TickState

/-! ## The invariant -/

/-- `t` is a point of the tick that started from `k`. -/
structure InTick (k : Kernel σ) (t : TickState σ) : Prop where
  fixed : t.jobs.map Job.fixed = k.beginTick.jobs.map Job.fixed
  tick : t.kernel.tick = k.tick + 1
  stopReason : t.kernel.stopReason = k.stopReason
  length : k.objects.length ≤ t.kernel.objects.length
  /-- Objects keep their identity, and are untouched until their step starts. -/
  object : ∀ i a, k.objects[i]? = some a → ∃ a', t.kernel.objects[i]? = some a'
    ∧ a.SameAgent a' ∧ ((∀ job ∈ t.jobs, job.ref = i → job.phase.isPending = true) → a' = a)
  /-- The object of a job is in the state its phase says. -/
  state : ∀ job ∈ t.jobs, ∀ s, job.phase.state? = some s →
    ∃ a, t.kernel.objects[job.ref]? = some a ∧ a.state = s
  fresh : ∀ i a, k.objects.length ≤ i → t.kernel.objects[i]? = some a →
    a.state = .ready ∧ a.restarts = 0
  /-- What is registered has been since the start, or is new. -/
  registry : ∀ x ref, t.kernel.agents.get? x = some ref →
    k.agents.get? x = some ref ∨ k.objects.length ≤ ref
  errors : ∃ es, t.kernel.errors = k.errors ++ es
    ∧ (es.map Prod.fst).Perm (t.casualties.map Job.name)
  wf : t.kernel.Wf

namespace InTick

theorem begin {k : Kernel σ} (hwf : k.Wf) : InTick k k.beginTick where
  fixed := rfl
  tick := rfl
  stopReason := rfl
  length := Nat.le_refl _
  object := fun i a ha => ⟨a, ha, .refl a, fun _ => rfl⟩
  state := by
    intro job hjob s hs
    obtain ⟨a, -, -, -, -, heq⟩ := (Kernel.mem_beginTick_jobs hwf).mp hjob
    rw [heq] at hs
    cases hs
  fresh := by
    intro i a hi ha
    rw [Kernel.beginTick_objects, List.getElem?_eq_none hi] at ha
    cases ha
  registry := fun _ _ h => .inl h
  errors := by
    refine ⟨[], by simp, ?_⟩
    have : k.beginTick.casualties = [] := by
      rw [TickState.casualties, List.filter_eq_nil_iff]
      intro job hjob
      obtain ⟨a, -, -, -, -, heq⟩ := (Kernel.mem_beginTick_jobs hwf).mp hjob
      rw [heq]
      simp [Phase.isFailed]
    simp [this]
  wf := hwf

variable {k : Kernel σ} {t : TickState σ}

theorem refs_nodup (h : InTick k t) (hwf : k.Wf) : (t.jobs.map Job.ref).Nodup := by
  rw [TickState.map_ref_of_fixed h.fixed]
  exact Kernel.beginTick_refs_nodup hwf

theorem names_nodup (h : InTick k t) (hwf : k.Wf) : (t.jobs.map Job.name).Nodup := by
  rw [TickState.map_name_of_fixed h.fixed]
  exact Kernel.beginTick_names_nodup hwf

/-- The agent of a casualty has no other job, so its step failed. -/
theorem isFailed_of_casualty (h : InTick k t) (hwf : k.Wf) {job job' : Job σ} (hjob : job ∈ t.jobs)
    (hcasualty : job' ∈ t.casualties) (href : job'.ref = job.ref) : job.phase.isFailed = true := by
  obtain ⟨hmem, hfailed⟩ := List.mem_filter.mp hcasualty
  obtain rfl := List.inj_on_of_nodup_map (h.refs_nodup hwf) hmem hjob href
  exact hfailed

/-- Where a job comes from: a live registered agent of the boundary. -/
theorem origin (h : InTick k t) (hwf : k.Wf) {job : Job σ} (hj : job ∈ t.jobs) :
    ∃ a, k.agents.get? job.name = some job.ref ∧ k.objects[job.ref]? = some a
      ∧ a.name = job.name ∧ a.isAlive = true
      ∧ (a.state = .waiting → k.inboxOf job.name ≠ []) ∧ job.inbox = k.inboxOf job.name := by
  obtain ⟨job', hmem, href, hname, hinbox⟩ := TickState.exists_of_fixed h.fixed hj
  obtain ⟨a, hreg, ho, halive, hskip, heq⟩ := (Kernel.mem_beginTick_jobs hwf).mp hmem
  have hjn : job'.name = a.name := by rw [heq]
  have hji : job'.inbox = k.inboxOf a.name := by rw [heq]
  rw [href] at hreg ho
  have hjn' : a.name = job.name := hjn.symm.trans hname
  exact ⟨a, hjn' ▸ hreg, ho, hjn', halive, hjn' ▸ hskip, by rw [← hinbox, hji, hjn']⟩

/-- A job is given what the boundary holds for a live agent. -/
theorem live (h : InTick k t) (hwf : k.Wf) {job : Job σ} (hj : job ∈ t.jobs) :
    k.isLive job.name = true ∧ job.inbox = k.inboxOf job.name := by
  obtain ⟨a, hreg, ho, -, halive, -, hinbox⟩ := h.origin hwf hj
  exact ⟨Kernel.isLive_iff.mpr ⟨a, Kernel.agent?_eq_some_iff.mpr ⟨_, hreg, ho⟩, halive⟩, hinbox⟩

/-- A live agent is scheduled, unless it waits and has no mail. -/
theorem scheduled_or_idle (h : InTick k t) (hwf : k.Wf) {x : String} {a : Agent σ}
    (hx : k.agent? x = some a) (halive : a.isAlive = true) :
    (∃ job ∈ t.jobs, job.name = x) ∨ (a.state = .waiting ∧ k.inboxOf x = []) := by
  obtain ⟨ref, hreg, ho⟩ := Kernel.agent?_eq_some_iff.mp hx
  obtain ⟨b, hb, hname⟩ := hwf x ref hreg
  rw [ho] at hb
  cases hb
  subst hname
  by_cases hidle : a.state = .waiting ∧ k.inboxOf a.name = []
  · exact .inr hidle
  · left
    have hmem : ({ ref, name := a.name, inbox := k.inboxOf a.name } : Job σ) ∈ k.beginTick.jobs :=
      (Kernel.mem_beginTick_jobs hwf).mpr
        ⟨a, hreg, ho, halive, fun hw he => hidle ⟨hw, he⟩, rfl⟩
    obtain ⟨job, hjob, -, hname, -⟩ := TickState.exists_of_fixed h.fixed.symm hmem
    exact ⟨job, hjob, hname⟩

/-- The object of a job at any point of the tick. -/
theorem job_object (h : InTick k t) (hwf : k.Wf) {job : Job σ} (hj : job ∈ t.jobs) :
    ∃ a, t.kernel.objects[job.ref]? = some a ∧ a.name = job.name
      ∧ ∀ s, job.phase.state? = some s → a.state = s := by
  obtain ⟨a, -, ho, hname, -, -, -⟩ := h.origin hwf hj
  obtain ⟨a', ho', hsame, -⟩ := h.object _ _ ho
  refine ⟨a', ho', ?_, fun s hs => ?_⟩
  · rw [hsame]; exact hname
  · obtain ⟨b, hb, hbs⟩ := h.state job hj s hs
    rw [ho'] at hb
    cases hb
    exact hbs

/-- Once its step has begun an agent is in the state its phase says. -/
theorem state_of_started (h : InTick k t) {job : Job σ} (hjob : job ∈ t.jobs)
    (hstarted : job.phase.isPending = false) {a : Agent σ}
    (ha : t.kernel.objects[job.ref]? = some a) : job.phase.state? = some a.state := by
  obtain ⟨s, hs⟩ := Phase.exists_state? hstarted
  obtain ⟨b, hb, hbs⟩ := h.state job hjob s hs
  rw [ha] at hb
  cases hb
  rw [hbs, hs]

/-! ### One move -/

/-- A job that has moved has started. -/
theorem not_isPending_of_moved (h : InTick k t) {i : Nat} {job : Job σ} {a : Agent σ}
    (hi : t.jobs[i]? = some job) (ha : t.kernel.objects[job.ref]? = some a) (code : AgentCode σ)
    (async : Bool) : (t.kernel.moveJob code async job).2.isPending = false := by
  obtain ⟨b, -, hbs⟩ := t.kernel.moveJob_state code async ha (by
    intro s hs
    obtain ⟨c, hc, hcs⟩ := h.state job (List.mem_of_getElem? hi) s hs
    rw [ha] at hc
    cases hc
    exact hcs)
  cases hp : (t.kernel.moveJob code async job).2 with
  | pending => simp [hp, Phase.state?] at hbs
  | running | returned | failed | escaped => rfl

theorem object_advance (h : InTick k t) {i : Nat} {job : Job σ} (hi : t.jobs[i]? = some job)
    (code : AgentCode σ) (async : Bool) {r : Nat} {a : Agent σ} (ha : k.objects[r]? = some a) :
    ∃ a', (t.advance code async i).kernel.objects[r]? = some a' ∧ a.SameAgent a'
      ∧ ((∀ job' ∈ (t.advance code async i).jobs, job'.ref = r → job'.phase.isPending = true) →
        a' = a) := by
  obtain ⟨a', ha', hsame, hpend⟩ := h.object r a ha
  obtain ⟨a'', ha'', hsame', hframe⟩ :=
    (t.kernel.moveJob_effect code async job (r := true) (by simp)).object ha'
  refine ⟨a'', TickState.kernel_advance hi ▸ ha'', hsame.trans hsame', fun hall => ?_⟩
  -- the job that moved is the job of another object
  have hr : r ≠ job.ref := by
    rintro rfl
    have hmoved := hall { job with phase := (t.kernel.moveJob code async job).2 }
      (List.mem_of_getElem? (i := i) (by rw [TickState.getElem?_advance hi, if_pos rfl])) rfl
    rw [h.not_isPending_of_moved hi ha'] at hmoved
    cases hmoved
  rw [hframe hr]
  refine hpend fun job' hmem href => ?_
  obtain ⟨j, hj⟩ := List.mem_iff_getElem?.mp hmem
  have hji : j ≠ i := by
    rintro rfl
    rw [hi] at hj
    cases hj
    exact hr href.symm
  exact hall job' (List.mem_of_getElem? (i := j)
    (by rw [TickState.getElem?_advance hi, if_neg hji, hj])) href

theorem state_advance (h : InTick k t) (hwf : k.Wf) {i : Nat} {job : Job σ}
    (hi : t.jobs[i]? = some job) (code : AgentCode σ) (async : Bool) :
    ∀ job' ∈ (t.advance code async i).jobs, ∀ s, job'.phase.state? = some s →
      ∃ a, (t.advance code async i).kernel.objects[job'.ref]? = some a ∧ a.state = s := by
  intro job' hmem s hs
  obtain ⟨j, hj⟩ := List.mem_iff_getElem?.mp hmem
  rw [TickState.getElem?_advance hi] at hj
  rw [TickState.kernel_advance hi]
  split at hj
  · cases hj
    obtain ⟨a, ha, -, hst⟩ := h.job_object hwf (List.mem_of_getElem? hi)
    obtain ⟨b, hb, hbs⟩ := t.kernel.moveJob_state code async ha hst
    exact ⟨b, hb, by rw [hbs] at hs; exact Option.some.inj hs⟩
  · rename_i hji
    have hne : job'.ref ≠ job.ref := fun href =>
      hji (eq_index_of_nodup_map (h.refs_nodup hwf) hj hi href)
    obtain ⟨a', ha', has⟩ := h.state job' (List.mem_of_getElem? hj) s hs
    obtain ⟨a'', ha'', -, hframe⟩ :=
      (t.kernel.moveJob_effect code async job (r := true) (by simp)).object ha'
    exact ⟨a'', ha'', by rw [hframe hne, has]⟩

theorem fresh_advance (h : InTick k t) (hwf : k.Wf) {i : Nat} {job : Job σ}
    (hi : t.jobs[i]? = some job) (code : AgentCode σ) (async : Bool) {r : Nat} {a : Agent σ}
    (hr : k.objects.length ≤ r) (ha : (t.advance code async i).kernel.objects[r]? = some a) :
    a.state = .ready ∧ a.restarts = 0 := by
  have heff := t.kernel.moveJob_effect code async job (r := true) (by simp)
  rw [TickState.kernel_advance hi] at ha
  by_cases hlt : r < t.kernel.objects.length
  · obtain ⟨b, hb⟩ : ∃ b, t.kernel.objects[r]? = some b := ⟨_, List.getElem?_eq_getElem hlt⟩
    obtain ⟨b', hb', -, hframe⟩ := heff.object hb
    have hne : r ≠ job.ref := by
      rintro rfl
      obtain ⟨c, -, hc, -⟩ := h.origin hwf (List.mem_of_getElem? hi)
      obtain ⟨hlt', -⟩ := List.getElem?_eq_some_iff.mp hc
      omega
    rw [ha] at hb'
    cases hb'
    rw [hframe hne]
    exact h.fresh r b hr hb
  · exact heff.fresh_object (by omega) ha

theorem wf_advance (h : InTick k t) {i : Nat} {job : Job σ} (hi : t.jobs[i]? = some job)
    (code : AgentCode σ) (async : Bool) : (t.advance code async i).kernel.Wf := by
  have heff := t.kernel.moveJob_effect code async job (r := true) (by simp)
  rw [TickState.kernel_advance hi]
  intro x r hx
  rcases heff.registry hx with hold | ⟨-, -, hnew⟩
  · obtain ⟨a, ha, rfl⟩ := h.wf x r hold
    obtain ⟨a', ha', hsame, -⟩ := heff.object ha
    exact ⟨a', ha', by rw [hsame]⟩
  · exact hnew

/-- One move keeps the invariant. -/
theorem advance (h : InTick k t) (hwf : k.Wf) (code : AgentCode σ) (async : Bool) (i : Nat) :
    InTick k (t.advance code async i) := by
  cases hi : t.jobs[i]? with
  | none => rwa [TickState.advance_of_none hi]
  | some job =>
    have heff := t.kernel.moveJob_effect code async job (r := true) (by simp)
    have hker : (t.advance code async i).kernel = (t.kernel.moveJob code async job).1 :=
      TickState.kernel_advance hi
    constructor
    case fixed => rw [TickState.fixed_advance, h.fixed]
    case tick => rw [hker, heff.tick_eq, h.tick]
    case stopReason => rw [hker, heff.stopReason_eq, h.stopReason]
    case length => rw [hker]; exact h.length.trans heff.length_le
    case object => exact fun r a ha => h.object_advance hi code async ha
    case state => exact h.state_advance hwf hi code async
    case fresh => exact fun r a hr ha => h.fresh_advance hwf hi code async hr ha
    case registry =>
      intro x r hx
      rw [hker] at hx
      rcases heff.registry hx with hold | ⟨-, rfl, -⟩
      · exact h.registry x r hold
      · exact .inr h.length
    case errors =>
      obtain ⟨es, hes, hperm⟩ := h.errors
      refine ⟨es ++ job.moveFailures, by rw [hker, heff.errors_eq, hes, List.append_assoc], ?_⟩
      rw [List.map_append]
      exact (hperm.append_right _).trans (TickState.casualties_advance hi).symm
    case wf => exact h.wf_advance hi code async

/-- **The invariant of a tick**: it holds after any schedule. -/
theorem exec (h : InTick k t) (hwf : k.Wf) (code : AgentCode σ) (async : Bool)
    (sched : List Nat) : InTick k (t.exec code async sched) :=
  Schedule.exec_induction (I := InTick k) (fun i _ hu => hu.advance hwf code async i) sched h

end InTick

end TitoOS
