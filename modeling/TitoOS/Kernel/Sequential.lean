import TitoOS.Kernel.InTick

/-!
# Sequential execution

`Kernel.step` runs each agent of a tick to its end on the calling thread. It is
what `stepWith` does on `SerialBackend` under a schedule that backend produces
(`step_eq_stepWith`): every job moves until it has ended, one job after the
other.
-/

namespace TitoOS

variable {σ : Type}

namespace TickState

/-- Moves of the `i`-th job alone, each one `SerialBackend` makes, lead from `t`
to `u`. -/
def MovesAlone (code : AgentCode σ) (i : Nat) (t u : TickState σ) : Prop :=
  ∃ n, Backend.serial.Legal code (List.replicate n i) t ∧ t.exec code false (List.replicate n i) = u

/-- The `i`-th job may move on `SerialBackend`. -/
theorem mayMove_serial {t : TickState σ} {i : Nat} {job : Job σ} (hi : t.jobs[i]? = some job)
    (horder : Backend.inOrder t.jobs i = true)
    (hphase : (job.phase.isPending || job.phase.isRunning) = true) :
    Backend.serial.mayMove t.jobs i = true := by
  simp [Backend.mayMove, hi, horder, hphase]

namespace MovesAlone

variable {code : AgentCode σ} {i : Nat} {t u : TickState σ}

theorem refl (t : TickState σ) : MovesAlone code i t t := ⟨0, trivial, rfl⟩

theorem cons (hmay : Backend.serial.mayMove t.jobs i = true)
    (h : MovesAlone code i (t.advance code false i) u) : MovesAlone code i t u := by
  obtain ⟨n, hlegal, hexec⟩ := h
  exact ⟨n + 1, ⟨hmay, hlegal⟩, hexec⟩

end MovesAlone

/-- The `i`-th job ends as if it ran on the calling thread, once it has `prog`
left to do. -/
def RunsToEnd (code : AgentCode σ) (i : Nat) (prog : StepProg σ) : Prop :=
  ∀ (t : TickState σ) (job : Job σ) (calls : List Call) (inbox : List Message),
    t.jobs[i]? = some job → job.phase = .running calls inbox prog →
    Backend.inOrder t.jobs i = true →
    MovesAlone code i t
      { kernel := (t.kernel.runStep job.ref job.name prog calls inbox).1
        jobs := t.jobs.set i
          { job with phase := (t.kernel.runStep job.ref job.name prog calls inbox).2 } }

theorem inOrder_set (jobs : List (Job σ)) (i : Nat) (job : Job σ) :
    Backend.inOrder (jobs.set i job) i = Backend.inOrder jobs i := by
  rw [Backend.inOrder, Backend.inOrder, List.take_set_of_le (Nat.le_refl i)]

/-- A move that leaves `rest` to do, followed by `rest`. -/
theorem movesAlone_of_move {code : AgentCode σ} {i : Nat} {t : TickState σ} {job : Job σ}
    {k : Kernel σ} {calls : List Call} {inbox : List Message} {rest : StepProg σ}
    (hi : t.jobs[i]? = some job) (hphase : (job.phase.isPending || job.phase.isRunning) = true)
    (horder : Backend.inOrder t.jobs i = true)
    (hmove : t.kernel.moveJob code false job = (k, .running calls inbox rest))
    (hrest : RunsToEnd code i rest) :
    MovesAlone code i t
      { kernel := (k.runStep job.ref job.name rest calls inbox).1
        jobs := t.jobs.set i
          { job with phase := (k.runStep job.ref job.name rest calls inbox).2 } } := by
  have hadvance : t.advance code false i
      = ⟨k, t.jobs.set i { job with phase := .running calls inbox rest }⟩ := by
    rw [advance_of_some code false hi, hmove]
  have hlt : i < t.jobs.length := (List.getElem?_eq_some_iff.mp hi).1
  refine .cons (mayMove_serial hi horder hphase) ?_
  rw [hadvance]
  have hend := hrest ⟨k, t.jobs.set i { job with phase := .running calls inbox rest }⟩
    { job with phase := .running calls inbox rest } calls inbox (by simp [hlt]) rfl
    (by rw [inOrder_set]; exact horder)
  simpa using hend

theorem moveJob_running (code : AgentCode σ) (k : Kernel σ) {job : Job σ} {calls : List Call}
    {inbox : List Message} {prog : StepProg σ} (hp : job.phase = .running calls inbox prog) :
    k.moveJob code false job = k.act false job.ref job.name calls inbox prog := by
  rw [Kernel.moveJob, hp]

/-- The last move of a job. -/
theorem movesAlone_last (code : AgentCode σ) {i : Nat} {t : TickState σ} {job : Job σ}
    (hi : t.jobs[i]? = some job) (hphase : (job.phase.isPending || job.phase.isRunning) = true)
    (horder : Backend.inOrder t.jobs i = true) :
    MovesAlone code i t
      { kernel := (t.kernel.moveJob code false job).1
        jobs := t.jobs.set i { job with phase := (t.kernel.moveJob code false job).2 } } := by
  refine .cons (mayMove_serial hi horder hphase) ?_
  rw [advance_of_some code false hi]
  exact .refl _

/-- **The rest of a step, move by move.** -/
theorem runsToEnd (code : AgentCode σ) (i : Nat) (prog : StepProg σ) :
    RunsToEnd code i prog := by
  induction prog with
  | ret | coroutine | raise e =>
    intro t job calls inbox hi hp horder
    have h := movesAlone_last code hi (by simp [hp, Phase.isRunning]) horder
    rw [moveJob_running code t.kernel hp] at h
    exact h
  | store _ rest ih | inbox _ rest ih | broadcast _ _ rest ih | wait rest ih | exit rest ih
  | dropMailbox _ rest ih =>
    intro t job calls inbox hi hp horder
    have hmove := moveJob_running code t.kernel hp
    have h := movesAlone_of_move hi (by simp [hp, Phase.isRunning]) horder (hmove.trans rfl) ih
    exact h
  | send _ _ _ rest ih | spawn _ rest ih | register _ _ rest ih =>
    intro t job calls inbox hi hp horder
    have hmove := moveJob_running code t.kernel hp
    have h := movesAlone_of_move hi (by simp [hp, Phase.isRunning]) horder (hmove.trans rfl) (ih _)
    exact h
  | unregister n rest ih =>
    intro t job calls inbox hi hp horder
    -- the registry goes first, the mailbox with the move after it
    have hdrop : RunsToEnd code i (.dropMailbox n rest) := by
      intro t job calls inbox hi hp horder
      have hmove := moveJob_running code t.kernel hp
      have h := movesAlone_of_move hi (by simp [hp, Phase.isRunning]) horder (hmove.trans rfl) ih
      exact h
    have hmove := moveJob_running code t.kernel hp
    have h := movesAlone_of_move hi (by simp [hp, Phase.isRunning]) horder (hmove.trans rfl) hdrop
    exact h

/-- A whole step, move by move. -/
theorem movesAlone_runAgent (code : AgentCode σ) {i : Nat} {t : TickState σ} {job : Job σ}
    {a : Agent σ} (hi : t.jobs[i]? = some job) (hp : job.phase = .pending)
    (horder : Backend.inOrder t.jobs i = true) (ha : t.kernel.objects[job.ref]? = some a) :
    MovesAlone code i t
      { kernel := (t.kernel.runAgent code job).1
        jobs := t.jobs.set i { job with phase := (t.kernel.runAgent code job).2 } } := by
  have hstart : t.kernel.start code job = (t.kernel.setState job.ref .running,
      .running [] job.inbox
        (code.stepOf { a with state := .running } t.kernel.tick job.inbox)) := by
    simp [Kernel.start, ha]
  have hmove : t.kernel.moveJob code false job = t.kernel.start code job := by
    rw [Kernel.moveJob, hp]
  have h := movesAlone_of_move hi (by simp [hp, Phase.isPending]) horder (hmove.trans hstart)
    (runsToEnd code i _)
  simpa [Kernel.runAgent, hstart] using h

/-- Moves only add objects. -/
theorem length_le_exec (code : AgentCode σ) (async : Bool) (sched : List Nat) (t : TickState σ) :
    t.kernel.objects.length ≤ (t.exec code async sched).kernel.objects.length := by
  refine kernel_exec (P := fun u => t.kernel.objects.length ≤ u.objects.length)
    (fun u job h => ?_) (Nat.le_refl _) sched
  have heff := Kernel.moveJob_effect code u async job (r := true) (by simp)
  exact h.trans heff.length_le

end TickState

/-- A schedule in two parts. -/
theorem Backend.legal_append (b : Backend) (code : AgentCode σ) (l m : List Nat)
    (t : TickState σ) :
    b.Legal code (l ++ m) t ↔ b.Legal code l t ∧ b.Legal code m (t.exec code b.isAsync l) := by
  induction l generalizing t with
  | nil => exact ⟨fun h => ⟨trivial, h⟩, fun h => h.2⟩
  | cons i rest ih =>
    show (_ ∧ b.Legal code (rest ++ m) _) ↔ (_ ∧ b.Legal code rest _) ∧ _
    rw [ih, and_assoc]
    rfl

namespace Kernel

/-- A step that is run to its end returns, fails or lets an exception escape. -/
theorem runStep_ends (ref : Nat) (name : String) (prog : StepProg σ) (calls : List Call)
    (inbox : List Message) (k : Kernel σ) :
    (k.runStep ref name prog calls inbox).2.isSettled = true
      ∨ ((k.runStep ref name prog calls inbox).2.escaped?).isSome = true := by
  induction prog generalizing calls inbox k with
  | ret | coroutine => exact .inl rfl
  | raise e =>
    unfold runStep
    split
    · exact .inl rfl
    · exact .inr rfl
  | store _ _ ih | inbox _ _ ih | broadcast _ _ _ ih | wait _ ih | exit _ ih | unregister _ _ ih
  | dropMailbox _ _ ih => exact ih ..
  | send _ _ _ _ ih | spawn _ _ ih | register _ _ _ ih => exact ih ..

theorem runAgent_ends (code : AgentCode σ) (k : Kernel σ) {job : Job σ} {a : Agent σ}
    (ha : k.objects[job.ref]? = some a) :
    (k.runAgent code job).2.isSettled = true
      ∨ ((k.runAgent code job).2.escaped?).isSome = true := by
  simp only [runAgent, start, ha]
  exact runStep_ends ..

/-- **The jobs of a tick, move by move**: the sequential execution is a schedule
of `SerialBackend`, which ends with all jobs settled or with one escaped. -/
theorem runTick_moves (code : AgentCode σ) (rest : List (Job σ)) {done : List (Job σ)}
    {k : Kernel σ} (hdone : ∀ job ∈ done, job.phase.isSettled = true)
    (hpending : ∀ job ∈ rest, job.phase = .pending)
    (hobject : ∀ job ∈ rest, job.ref < k.objects.length) :
    ∃ sched, Backend.serial.Legal code sched ⟨k, done ++ rest⟩
      ∧ TickState.exec code false sched ⟨k, done ++ rest⟩
        = ⟨(k.runTick code rest).1, done ++ (k.runTick code rest).2⟩
      ∧ ((∀ job ∈ (k.runTick code rest).2, job.phase.isSettled = true)
        ∨ ((((k.runTick code rest).2.find? fun job => !job.phase.isSettled).bind
            fun job => job.phase.escaped?).isSome = true)) := by
  induction rest generalizing done k with
  | nil => exact ⟨[], trivial, rfl, .inl (by simp [runTick])⟩
  | cons job rest ih =>
    have hi : (done ++ job :: rest)[done.length]? = some job := by simp
    have horder : Backend.inOrder (done ++ job :: rest) done.length = true := by
      simpa [Backend.inOrder] using hdone
    have hlt := hobject job (by simp)
    -- the first agent left makes all its actions, and no other may make one before
    obtain ⟨n, hlegal, hexec⟩ := TickState.movesAlone_runAgent code
      (t := ⟨k, done ++ job :: rest⟩) hi (hpending job (by simp)) horder
      (List.getElem?_eq_getElem hlt)
    have hset : (done ++ job :: rest).set done.length
        { job with phase := (k.runAgent code job).2 }
        = (done ++ [{ job with phase := (k.runAgent code job).2 }]) ++ rest := by
      simp
    simp only [hset] at hexec
    -- a step that a BaseException leaves ends the loop, with the rest pending
    by_cases hsettled : (k.runAgent code job).2.isSettled = true
    · have hlength := TickState.length_le_exec code false (List.replicate n done.length)
        ⟨k, done ++ job :: rest⟩
      rw [hexec] at hlength
      have hdone' : ∀ j ∈ done ++ [{ job with phase := (k.runAgent code job).2 }],
          j.phase.isSettled = true := by
        intro j hj
        rcases List.mem_append.mp hj with hj | hj
        · exact hdone j hj
        · obtain rfl := List.mem_singleton.mp hj
          exact hsettled
      have hobject' : ∀ j ∈ rest, j.ref < (k.runAgent code job).1.objects.length :=
        fun j hj => (hobject j (by simp [hj])).trans_le hlength
      obtain ⟨sched, hlegal', hexec', hends⟩ :=
        ih hdone' (fun j hj => hpending j (by simp [hj])) hobject'
      have hrun : k.runTick code (job :: rest)
          = (((k.runAgent code job).1.runTick code rest).1,
            { job with phase := (k.runAgent code job).2 }
              :: ((k.runAgent code job).1.runTick code rest).2) := by
        simp [runTick, hsettled]
      refine ⟨List.replicate n done.length ++ sched, ?_, ?_, ?_⟩
      · rw [Backend.legal_append]
        refine ⟨hlegal, ?_⟩
        have hserial : Backend.serial.isAsync = false := rfl
        rw [hserial, hexec]
        exact hlegal'
      · have happend := Schedule.exec_append (TickState.advance code false)
          (List.replicate n done.length) sched ⟨k, done ++ job :: rest⟩
        rw [TickState.exec, happend]
        rw [TickState.exec] at hexec hexec'
        rw [hexec, hexec', hrun]
        simp
      · rw [hrun]
        refine hends.imp (fun hall j hj => ?_) fun hescaped => ?_
        · rcases List.mem_cons.mp hj with rfl | hj
          · exact hsettled
          · exact hall j hj
        · simpa [hsettled] using hescaped
    · have hrun : k.runTick code (job :: rest)
          = ((k.runAgent code job).1, { job with phase := (k.runAgent code job).2 } :: rest) := by
        simp [runTick, hsettled]
      refine ⟨List.replicate n done.length, hlegal, ?_, .inr ?_⟩
      · rw [hexec, hrun]
        simp
      · have hescaped := (runAgent_ends code k (List.getElem?_eq_getElem hlt)).resolve_left hsettled
        rw [hrun]
        simpa [hsettled] using hescaped

/-- **The sequential step is a step of `SerialBackend`.** -/
theorem step_eq_stepWith (code : AgentCode σ) (k : Kernel σ) :
    ∃ sched, k.Allows code .serial false sched
      ∧ k.stepWith code .serial false sched = k.step code := by
  cases hrefused : k.refused code .serial false with
  | some e =>
    refine ⟨[], by simp [Allows, hrefused], ?_⟩
    simp [stepWith, tickWith, step, hrefused]
  | none =>
    have hpending : ∀ job ∈ k.beginTick.jobs, job.phase = .pending :=
      fun job hjob => (object_of_mem_beginTick hjob).1
    have hobject : ∀ job ∈ k.beginTick.jobs, job.ref < k.beginTick.kernel.objects.length := by
      intro job hjob
      obtain ⟨-, a, hobj⟩ := object_of_mem_beginTick hjob
      exact (List.getElem?_eq_some_iff.mp hobj).1
    have hnone : ∀ job ∈ ([] : List (Job σ)), job.phase.isSettled = true := fun _ h => by cases h
    obtain ⟨sched, hlegal, hexec, hends⟩ :=
      runTick_moves code k.beginTick.jobs hnone hpending hobject
    have hrun : k.beginTick.exec code Backend.serial.isAsync sched
        = ⟨(k.beginTick.kernel.runTick code k.beginTick.jobs).1,
          (k.beginTick.kernel.runTick code k.beginTick.jobs).2⟩ := hexec
    refine ⟨sched, ?_, ?_⟩
    · simp only [Allows, hrefused]
      refine ⟨hlegal, ?_⟩
      rw [hrun]
      exact hends.imp List.all_eq_true.mpr id
    · simp only [stepWith, tickWith, step, hrefused, hrun]

end Kernel

end TitoOS
