import TitoOS.Kernel.Loop
import TitoOS.Orderly
import TitoOS.Script

/-!
# Serial and threaded runs

A run on a thread pool, in any order its workers make their calls, gives what
the serial run gives as long as every tick of the serial run is orderly: the
same reports, agents and error log, and the same inbox for every agent in every
tick (`threaded_run_like_serial`). One worker leaves no choice of the order, so
there it is enough that no `BaseException` lets it go on while the tick is given
up. Two agents that write to one mailbox in one
tick are enough to tell the backends apart (`threads_reorder_mail`).
-/

namespace TitoOS

variable {σ : Type}

namespace Kernel

/-- In the next tick only the last agent may let a `BaseException` escape. -/
def EscapesLast (code : AgentCode σ) (k : Kernel σ) : Prop :=
  ∀ i ∈ List.range (k.beginTick.jobs.length - 1),
    ((k.beginTick.deed? code i).bind fun d => d.phase.escaped?) = none

instance (code : AgentCode σ) (k : Kernel σ) : Decidable (k.EscapesLast code) :=
  decidable_of_iff (∀ i ∈ List.range (k.beginTick.jobs.length - 1),
      ((k.beginTick.deed? code i).bind fun d => d.phase.escaped?).isNone = true)
    (forall₂_congr fun _ _ => Option.isNone_iff_eq_none)

/-- Every tick of the serial run is orderly; with one worker it is enough that only
the last agent lets a `BaseException` escape. -/
def OrderlyRun (code : AgentCode σ) (workers : Nat) (maxTicks : Int) (k : Kernel σ) : Prop :=
  ∀ u ∈ k.ticksBy (fun _ => Kernel.step code) maxTicks,
    u.Orderly code ∨ workers = 1 ∧ u.EscapesLast code

instance (code : AgentCode σ) (workers : Nat) (maxTicks : Int) (k : Kernel σ) :
    Decidable (k.OrderlyRun code workers maxTicks) :=
  inferInstanceAs (Decidable (∀ u ∈ _, _ ∨ _ ∧ _))

/-- The run on `b` in the orders `scheds` gives what the serial run gives: the
reports, the final state of the agents, their mailboxes and the error log, and
in each tick the live agents and their inboxes. -/
structure RunsLikeSerial (code : AgentCode σ) (b : Backend) (loop : Bool) (scheds : Nat → List Nat)
    (maxTicks : Int) (k : Kernel σ) : Prop where
  reports : (k.runBy (stepsOn code b loop scheds) maxTicks).2.toOption
    = (k.run code maxTicks).2.toOption
  final : (k.run code maxTicks).1.Mirrors (k.runBy (stepsOn code b loop scheds) maxTicks).1
  inboxes : (k.ticksBy (stepsOn code b loop scheds) maxTicks).map Kernel.drained
    = (k.ticksBy (fun _ => Kernel.step code) maxTicks).map Kernel.drained

/-! ## Mirrored runs -/

theorem toOption_map {α β : Type} (f : α → β) (result : Except Exc α) :
    (result.map f).toOption = result.toOption.map f := by
  cases result with
  | error => rfl
  | ok => rfl

namespace Mirrors

variable {k m : Kernel σ} {code : AgentCode σ}

/-- **One tick of the serial run**, if it is orderly, goes alike on a
synchronous backend. -/
theorem step (hcode : code.Plain) (hwf : k.Wf) (h : k.Mirrors m) (horder : k.Orderly code)
    {b : Backend} (hb : b.isAsync = false) {loop : Bool} {sched : List Nat}
    (hallow : m.Allows code b loop sched) :
    (m.stepWith code b loop sched).2.toOption = (k.step code).2.toOption
      ∧ (k.step code).1.Mirrors (m.stepWith code b loop sched).1 := by
  obtain ⟨s, hserial, heq⟩ := step_eq_stepWith code k
  rw [← heq]
  exact h.stepWith hcode hwf horder rfl hb hserial hallow

theorem stopped (h : k.Mirrors m) (reason : Option StopReason) :
    { k with stopReason := reason }.Mirrors { m with stopReason := reason } :=
  { h with stopReason := rfl }

theorem liveSnapshot (h : k.Mirrors m) : m.liveSnapshot = k.liveSnapshot :=
  (h.twins []).liveSnapshot

theorem isQuiescentWith (h : k.Mirrors m) (hwf : k.Wf) :
    m.isQuiescentWith k.liveSnapshot = k.isQuiescentWith k.liveSnapshot := by
  unfold Kernel.isQuiescentWith
  rw [h.bus.anyPending (visible hwf)]

theorem isIdle (h : k.Mirrors m) (hwf : k.Wf) : m.isIdle = k.isIdle := by
  unfold Kernel.isIdle Kernel.isQuiescent
  rw [h.liveSnapshot, h.isQuiescentWith hwf]

theorem finishRun (h : k.Mirrors m) (hwf : k.Wf) : k.finishRun.Mirrors m.finishRun := by
  unfold Kernel.finishRun
  rw [h.liveSnapshot, h.isQuiescentWith hwf]
  split
  · exact h.stopped _
  · split
    · exact h.stopped _
    · exact h

end Mirrors

/-! ## Runs that go alike -/

/-- **A whole run**, tick by tick: if the ticks of `step` go alike on a backend
wherever the kernels mirror each other, its runs do. -/
theorem runLoop_alike {code : AgentCode σ} {b : Backend} {loop : Bool} {scheds : Nat → List Nat}
    {good : Kernel σ → Prop} {R : Kernel σ → Kernel σ → Prop}
    (hmirrors : ∀ {k m}, R k m → k.Wf ∧ k.Mirrors m)
    (hstep : ∀ {k m sched}, R k m → good k → m.Allows code b loop sched →
      (m.stepWith code b loop sched).2.toOption = (k.step code).2.toOption
        ∧ R (k.step code).1 (m.stepWith code b loop sched).1)
    (n i : Nat) {k m : Kernel σ} (h : R k m)
    (hgood : ∀ u ∈ ticksLoopBy (fun _ => Kernel.step code) i n k, good u)
    (hallow : ∀ p ∈ (ticksLoopBy (stepsOn code b loop scheds) i n m).zipIdx i,
      p.1.Allows code b loop (scheds p.2)) :
    (runLoopBy (stepsOn code b loop scheds) i n m).2.toOption
        = (runLoopBy (fun _ => Kernel.step code) i n k).2.toOption
      ∧ (runLoopBy (fun _ => Kernel.step code) i n k).1.Mirrors
        (runLoopBy (stepsOn code b loop scheds) i n m).1
      ∧ (ticksLoopBy (stepsOn code b loop scheds) i n m).map Kernel.drained
        = (ticksLoopBy (fun _ => Kernel.step code) i n k).map Kernel.drained := by
  have hfirst : ∀ {i n : Nat} {m : Kernel σ}, m.isIdle = false →
      (m, i) ∈ (ticksLoopBy (stepsOn code b loop scheds) i (n + 1) m).zipIdx i := by
    intro i n m hidle
    rw [ticksLoopBy_of_busy hidle]
    exact List.mem_cons_self
  induction i, n, k using loop_induction (fun _ => Kernel.step code) generalizing m with
  | spent =>
    obtain ⟨hwf, hmirror⟩ := hmirrors h
    exact ⟨rfl, hmirror.finishRun hwf, rfl⟩
  | idle i n k hidle =>
    obtain ⟨hwf, hmirror⟩ := hmirrors h
    have hidle' := (hmirror.isIdle hwf).trans hidle
    rw [runLoopBy_of_idle hidle, runLoopBy_of_idle hidle', ticksLoopBy_of_idle hidle,
      ticksLoopBy_of_idle hidle']
    exact ⟨rfl, hmirror.finishRun hwf, rfl⟩
  | raises i n k u e hidle hserial =>
    obtain ⟨hwf, hmirror⟩ := hmirrors h
    have hidle' := (hmirror.isIdle hwf).trans hidle
    rw [ticksLoopBy_of_raises hidle hserial] at hgood
    obtain ⟨hreport, h'⟩ := hstep h (hgood k (by simp)) (hallow _ (hfirst hidle'))
    rw [hserial] at hreport h'
    -- the other loop raises at the same tick, maybe another exception
    rcases hpooled : stepsOn code b loop scheds i m with ⟨v, e' | report⟩
    · rw [show m.stepWith code b loop (scheds i) = _ from hpooled] at h'
      rw [runLoopBy_of_raises hidle hserial, runLoopBy_of_raises hidle' hpooled,
        ticksLoopBy_of_raises hidle hserial, ticksLoopBy_of_raises hidle' hpooled]
      exact ⟨rfl, (hmirrors h').2, by simp [hmirror.drained hwf]⟩
    · rw [show m.stepWith code b loop (scheds i) = _ from hpooled] at hreport
      cases hreport
  | returns i n k u report hidle hserial ih =>
    obtain ⟨hwf, hmirror⟩ := hmirrors h
    have hidle' := (hmirror.isIdle hwf).trans hidle
    rw [ticksLoopBy_of_returns hidle hserial] at hgood
    obtain ⟨hreport, h'⟩ := hstep h (hgood k (by simp)) (hallow _ (hfirst hidle'))
    rw [hserial] at hreport h'
    rcases hpooled : stepsOn code b loop scheds i m with ⟨v, e' | report'⟩
    · rw [show m.stepWith code b loop (scheds i) = _ from hpooled] at hreport
      cases hreport
    · rw [show m.stepWith code b loop (scheds i) = _ from hpooled] at hreport h'
      cases hreport
      rw [ticksLoopBy_of_returns hidle' hpooled, List.zipIdx_cons] at hallow
      obtain ⟨hreports, h'', hdrained⟩ := ih h'
        (fun x hx => hgood x (List.mem_cons_of_mem _ hx))
        fun p hp => hallow p (List.mem_cons_of_mem _ hp)
      rw [runLoopBy_of_returns hidle hserial, runLoopBy_of_returns hidle' hpooled,
        ticksLoopBy_of_returns hidle hserial, ticksLoopBy_of_returns hidle' hpooled]
      refine ⟨?_, h'', by simp [hmirror.drained hwf, hdrained]⟩
      rw [toOption_map, toOption_map, hreports]

theorem Wf.step {k : Kernel σ} (hwf : k.Wf) (code : AgentCode σ) : (k.step code).1.Wf := by
  obtain ⟨s, -, heq⟩ := step_eq_stepWith code k
  exact heq ▸ hwf.stepWith code .serial false s

end Kernel

/-! ## One worker -/

namespace Backend

theorem isSettled_of_inOrder {jobs : List (Job σ)} {i j : Nat} {job : Job σ}
    (h : inOrder jobs i = true) (hlt : j < i) (hj : jobs[j]? = some job) :
    job.phase.isSettled = true :=
  List.all_eq_true.mp h job (List.mem_of_getElem? (by rw [List.getElem?_take_of_lt hlt, hj]))

/-- `SerialBackend` moves one job at a time. -/
theorem mayMove_serial_iff {jobs : List (Job σ)} {i : Nat} :
    Backend.serial.mayMove jobs i = true ↔ ∃ job, jobs[i]? = some job
      ∧ inOrder jobs i = true ∧ (job.phase.isPending || job.phase.isRunning) = true := by
  unfold mayMove
  cases jobs[i]? <;> simp

theorem mayMove_serial_unique {jobs : List (Job σ)} {i j : Nat}
    (hi : Backend.serial.mayMove jobs i = true) (hj : Backend.serial.mayMove jobs j = true) :
    i = j := by
  have hle : ∀ {i j : Nat}, Backend.serial.mayMove jobs i = true →
      Backend.serial.mayMove jobs j = true → j ≤ i := by
    intro i j hi hj
    obtain ⟨job, hjob, -, hphase⟩ := mayMove_serial_iff.mp hi
    obtain ⟨-, -, horder, -⟩ := mayMove_serial_iff.mp hj
    by_contra hlt
    have hsettled := isSettled_of_inOrder horder (not_le.mp hlt) hjob
    cases hp : job.phase <;> simp [hp, Phase.isPending, Phase.isRunning, Phase.isSettled] at *
  exact Nat.le_antisymm (hle hj hi) (hle hi hj)

/-- **There is one order only** in which `SerialBackend` takes a tick to its end. -/
theorem legal_serial_unique {code : AgentCode σ} {s s' : List Nat} {t : TickState σ}
    (h : Backend.serial.Legal code s t) (h' : Backend.serial.Legal code s' t)
    (hend : ∀ i, Backend.serial.mayMove (t.exec code false s).jobs i = false)
    (hend' : ∀ i, Backend.serial.mayMove (t.exec code false s').jobs i = false) : s = s' := by
  induction s generalizing t s' with
  | nil =>
    cases s' with
    | nil => rfl
    | cons i rest => cases (hend i).symm.trans h'.1
  | cons i rest ih =>
    cases s' with
    | nil => cases (hend' i).symm.trans h.1
    | cons j rest' =>
      obtain rfl := mayMove_serial_unique h.1 h'.1
      rw [ih h.2 h'.2 hend hend']

/-- At the end of a tick nobody moves. -/
theorem mayMove_serial_of_ended {t : TickState σ}
    (h : t.isComplete = true ∨ (Backend.serial.raises t).isSome = true) (i : Nat) :
    Backend.serial.mayMove t.jobs i = false := by
  by_contra hmay
  obtain ⟨job, hi, horder, hphase⟩ := mayMove_serial_iff.mp (Bool.not_eq_false _ ▸ hmay)
  have hsettled : job.phase.isSettled = false := by
    cases hp : job.phase <;> simp [hp, Phase.isPending, Phase.isRunning, Phase.isSettled] at *
  rcases h with hcomplete | hraises
  · cases hsettled.symm.trans (TickState.isComplete_iff.mp hcomplete job (List.mem_of_getElem? hi))
  · -- it is the first that has not ended, so it would be the one that raises
    have hfind : t.jobs.find? (fun job => !job.phase.isSettled) = some job := by
      obtain ⟨hlt, hget⟩ := List.getElem?_eq_some_iff.mp hi
      refine List.find?_eq_some_iff_getElem.mpr ⟨by simp [hsettled], i, hlt, hget, fun j hj => ?_⟩
      simp [isSettled_of_inOrder horder hj (List.getElem?_eq_getElem (hj.trans hlt))]
    simp only [raises, isAsync, Bool.false_eq_true, if_false, hfind, Option.bind_some] at hraises
    cases hp : job.phase <;> simp [hp, Phase.isPending, Phase.isRunning, Phase.escaped?] at *

end Backend

/-- With one worker, who is running has nobody before him who is not done. -/
def TickState.Single (t : TickState σ) : Prop :=
  ∀ i job, t.jobs[i]? = some job → job.phase.isRunning = true → Backend.inOrder t.jobs i = true

/-- A move of the single job that may make one. -/
theorem TickState.Single.advance {code : AgentCode σ} {t : TickState σ} {i : Nat}
    (hmay : Backend.serial.mayMove t.jobs i = true) (h : t.Single) :
    (t.advance code false i).Single := by
  obtain ⟨job, hi, horder, hphase⟩ := Backend.mayMove_serial_iff.mp hmay
  have hjobs : (t.advance code false i).jobs
      = t.jobs.set i { job with phase := (t.kernel.moveJob code false job).2 } := by
    simp [TickState.advance, hi]
  intro j other hj hrunning
  rw [hjobs] at hj ⊢
  by_cases hij : i = j
  · subst hij
    rwa [TickState.inOrder_set]
  · rw [List.getElem?_set_ne hij] at hj
    have hother := h j other hj hrunning
    -- both would be the one that moves
    have hmay' : Backend.serial.mayMove t.jobs j = true :=
      Backend.mayMove_serial_iff.mpr ⟨other, hj, hother, by simp [hrunning]⟩
    exact absurd (Backend.mayMove_serial_unique hmay hmay') hij

namespace Kernel

variable {k : Kernel σ} {code : AgentCode σ}

/-- Who has ended before the last job has not let an exception escape. -/
theorem EscapesLast.isSettled (h : k.EscapesLast code) (hcode : code.Plain) (hwf : k.Wf)
    {sched : List Nat} {i : Nat} {job : Job σ}
    (hi : (k.beginTick.exec code false sched).jobs[i]? = some job)
    (hlt : i + 1 < (k.beginTick.exec code false sched).jobs.length)
    (hpending : job.phase.isPending = false) (hrunning : job.phase.isRunning = false) :
    job.phase.isSettled = true := by
  by_contra hsettled
  have hescaped : (job.phase.escaped?).isSome = true := by
    cases hp : job.phase <;>
      simp [hp, Phase.isPending, Phase.isRunning, Phase.isSettled, Phase.escaped?] at *
  obtain ⟨a, ms, -, hdeed⟩ := PlainTick.ended hwf hcode sched hi (.inr hescaped)
  have hlength := congrArg List.length (PlainTick.exec hwf hcode sched).inTick.fixed
  rw [List.length_map, List.length_map] at hlength
  have hnone := h i (by rw [List.mem_range]; omega)
  rw [hdeed, Option.bind_some] at hnone
  rw [hnone] at hescaped
  cases hescaped

theorem EscapesLast.mayMove_serial (h : k.EscapesLast code) (hcode : code.Plain) (hwf : k.Wf)
    {pos : 1 ≤ 1} {sched : List Nat} (hsingle : (k.beginTick.exec code false sched).Single)
    {i : Nat} (hmay : (Backend.thread 1 pos).mayMove (k.beginTick.exec code false sched).jobs i
      = true) :
    Backend.serial.mayMove (k.beginTick.exec code false sched).jobs i = true := by
  unfold Backend.mayMove at hmay
  cases hi : (k.beginTick.exec code false sched).jobs[i]? with
  | none => simp [hi] at hmay
  | some job =>
    simp only [hi] at hmay
    split at hmay
    · rw [Backend.mayMove_serial_iff]
      exact ⟨job, hi, by simpa using hmay⟩
    · rcases Bool.or_eq_true_iff.mp hmay with hrunning | hstarts
      · exact Backend.mayMove_serial_iff.mpr
          ⟨job, hi, hsingle i job hi hrunning, by simp [hrunning]⟩
      · simp only [Bool.and_eq_true, decide_eq_true_eq] at hstarts
        obtain ⟨⟨hpending, hstarted⟩, hfree⟩ := hstarts
        refine Backend.mayMove_serial_iff.mpr
          ⟨job, hi, List.all_eq_true.mpr fun other hother => ?_, by simp [hpending]⟩
        obtain ⟨j, hj⟩ := List.mem_iff_getElem?.mp hother
        have hlt : j < i := by
          have := (List.getElem?_eq_some_iff.mp hj).1
          rw [List.length_take] at this
          omega
        rw [List.getElem?_take_of_lt hlt] at hj
        have hilt := (List.getElem?_eq_some_iff.mp hi).1
        -- the only worker is free
        have hidle : other.phase.isRunning = false := by
          have hnone := List.length_eq_zero_iff.mp (Nat.lt_one_iff.mp hfree)
          simpa using List.filter_eq_nil_iff.mp hnone other (List.mem_of_getElem? hj)
        exact h.isSettled hcode hwf hj (by omega)
          (by simpa using List.all_eq_true.mp hstarted other hother) hidle

/-- **One worker goes like `SerialBackend`** as long as nobody but the last agent lets
a `BaseException` escape. -/
theorem EscapesLast.legal_serial (h : k.EscapesLast code) (hcode : code.Plain) (hwf : k.Wf)
    {pos : 1 ≤ 1} {sched : List Nat}
    (hlegal : (Backend.thread 1 pos).Legal code sched k.beginTick) :
    Backend.serial.Legal code sched k.beginTick
      ∧ (k.beginTick.exec code false sched).Single := by
  induction sched using List.reverseRecOn with
  | nil =>
    refine ⟨trivial, fun i job hi hrunning => ?_⟩
    rw [(object_of_mem_beginTick (List.mem_of_getElem? hi)).1] at hrunning
    cases hrunning
  | append_singleton sched i ih =>
    obtain ⟨hbefore, hmay, -⟩ := (Backend.legal_append _ code sched [i] k.beginTick).mp hlegal
    obtain ⟨hserial, hsingle⟩ := ih hbefore
    have hmay' : Backend.serial.mayMove (k.beginTick.exec code false sched).jobs i = true :=
      h.mayMove_serial hcode hwf hsingle hmay
    refine ⟨(Backend.legal_append _ code sched [i] k.beginTick).mpr ⟨hserial, hmay', trivial⟩, ?_⟩
    rw [TickState.exec, Schedule.exec_append]
    exact hsingle.advance hmay'

/-- A tick on one worker goes as it goes serially. -/
theorem EscapesLast.stepWith (h : k.EscapesLast code) (hcode : code.Plain) (hwf : k.Wf)
    {pos : 1 ≤ 1} {loop : Bool} {sched : List Nat}
    (hallow : k.Allows code (.thread 1 pos) loop sched) :
    (k.stepWith code (.thread 1 pos) loop sched).2.toOption = (k.step code).2.toOption
      ∧ (k.step code).1 = (k.stepWith code (.thread 1 pos) loop sched).1 := by
  obtain ⟨s, hallow', heq⟩ := step_eq_stepWith code k
  rw [← heq]
  have hrefused : (k.refused code (.thread 1 pos) loop).isSome
      = (k.refused code .serial false).isSome :=
    (Mirrors.refl k).refused_isSome hwf code rfl rfl loop false
  cases hserial : k.refused code .serial false with
  | some e =>
    obtain ⟨e', hpooled⟩ := Option.isSome_iff_exists.mp (hrefused.trans (by rw [hserial]; rfl))
    rw [stepWith_of_refused hserial, stepWith_of_refused hpooled]
    exact ⟨rfl, rfl⟩
  | none =>
    have hpooled : k.refused code (.thread 1 pos) loop = none := by simpa [hserial] using hrefused
    simp only [Allows, hserial] at hallow'
    simp only [Allows, hpooled] at hallow
    obtain rfl : sched = s := Backend.legal_serial_unique (h.legal_serial hcode hwf hallow.1).1
      hallow'.1 (Backend.mayMove_serial_of_ended hallow.2)
      (Backend.mayMove_serial_of_ended hallow'.2)
    simp only [Kernel.stepWith, tickWith, hserial, hpooled]
    exact ⟨rfl, rfl⟩

end Kernel

/-- **Threads and serial execution agree on orderly runs.** Agents only send,
broadcast, wait, exit and raise. If in every tick of the serial run no two
scheduled agents put mail into one mailbox that survives the tick, at most one
fails, and only the last may let a `BaseException` escape, then a run on a
thread pool goes like the serial run, in every order of the calls its workers
make. With one worker the last of these is enough. -/
theorem threaded_run_like_serial {code : AgentCode σ} (hcode : code.Plain) {k : Kernel σ}
    {acts : List (Act σ)} (hreach : Runs (fun k act k' => k.Performs code act k') {} acts k)
    {workers : Nat} {pos : 1 ≤ workers} {loop : Bool} {scheds : Nat → List Nat} {maxTicks : Int}
    (hallow : k.AllowsRun code (.thread workers pos) loop scheds maxTicks)
    (horder : k.OrderlyRun code workers maxTicks) :
    k.RunsLikeSerial code (.thread workers pos) loop scheds maxTicks := by
  have hwf : k.Wf := Kernel.wf_of_performs hreach Kernel.sound_init.wf
  suffices h : _ ∧ _ ∧ _ from ⟨h.1, h.2.1, h.2.2⟩
  unfold Kernel.AllowsRun at hallow
  unfold Kernel.OrderlyRun at horder
  rw [Kernel.run_eq_runBy]
  unfold Kernel.ticksBy at hallow horder ⊢
  unfold Kernel.runBy
  split
  · exact ⟨rfl, .refl k, rfl⟩
  · rename_i hbudget
    rw [if_neg hbudget] at hallow horder
    have hstart : Kernel.Wf { k with stopReason := some .maxTicks } := hwf
    by_cases hone : workers = 1
    case pos =>
      subst hone
      refine Kernel.runLoop_alike (R := fun k m => k.Wf ∧ k = m)
        (fun ⟨hwf, heq⟩ => ⟨hwf, heq ▸ .refl _⟩) (fun ⟨hwf, heq⟩ hescapes hallow => ?_) _ 0
        ⟨hstart, rfl⟩ (fun u hu => (horder u hu).elim Kernel.Orderly.escapes And.right) hallow
      subst heq
      obtain ⟨hreport, hsame⟩ := Kernel.EscapesLast.stepWith hescapes hcode hwf hallow
      exact ⟨hreport, hwf.step code, hsame⟩
    case neg =>
      refine Kernel.runLoop_alike (R := fun k m => k.Wf ∧ k.Mirrors m) id
        (fun ⟨hwf, hmirror⟩ horder hallow => ?_) _ 0 ⟨hstart, .refl _⟩
        (fun u hu => (horder u hu).resolve_right fun h => hone h.1) hallow
      obtain ⟨hreport, hsame⟩ := hmirror.step hcode hwf horder rfl hallow
      exact ⟨hreport, hwf.step code, hsame⟩

theorem scripted_plain : scripted.Plain := fun s _ _ _ =>
  Script.prog_every trivial (fun _ => trivial) (fun _ _ _ _ => trivial) (fun _ _ _ => trivial)
    (fun _ => trivial) (fun _ => trivial) s.actions

/-- Two workers. -/
abbrev Backend.two : Backend := .thread 2 (by decide)

/-- A kernel whose agents write to each other; the second fails. -/
def partnersOps : List (Op Script) :=
  [.register (Script.agent "ping" (by decide) [.send "pong" "a"]) none,
   .register (Script.agent "pong" (by decide) [.send "ping" "b", .fail "boom"]) none]

theorem partnersOps_accepted : (Kernel.replay scripted partnersOps {}).isSome = true := by decide

def partners : Kernel Script := ((Kernel.replay scripted partnersOps {}).get partnersOps_accepted).2

/-- Both agents of the first tick run at the same time, and the second one is
ahead. -/
def partnersOrders : Nat → List Nat
  | 0 => [0, 1, 1, 1, 0, 0]
  | _ => [0, 0, 0]

theorem threaded_run_like_serial_partners :
    partners.RunsLikeSerial scripted .two false partnersOrders 2 :=
  threaded_run_like_serial scripted_plain
    ((Kernel.replay_settles (Option.some_get partnersOps_accepted).symm).mono fun _ _ _ h => h.1)
    (by decide) (by decide)

/-- A kernel whose last two agents write to the first, and fail. -/
def rivalsOps : List (Op Script) :=
  [.register (Script.agent "sink" Script.sink_ne []) none,
   .register (Script.agent "first" Script.first_ne [.send "sink" "1", .fail "boom"]) none,
   .register (Script.agent "second" Script.second_ne [.send "sink" "2", .fail "boom"]) none]

theorem rivalsOps_accepted : (Kernel.replay scripted rivalsOps {}).isSome = true := by decide

def rivals : Kernel Script := ((Kernel.replay scripted rivalsOps {}).get rivalsOps_accepted).2

/-- The second rival overtakes the first. -/
def rivalsOrders : Nat → List Nat
  | 0 => [0, 0, 1, 2, 2, 2, 1, 1]
  | _ => [0, 0]

/-- **Threads reorder mail and failures**: two agents that write to one mailbox
in one tick and fail, and a thread pool of two. The inbox of the next tick and
the error log come out in another order than they do serially. -/
theorem threads_reorder_mail :
    scripted.Plain ∧ rivals.AllowsRun scripted .two false rivalsOrders 2
      ∧ (rivals.ticksBy (Kernel.stepsOn scripted .two false rivalsOrders) 2).map
          (fun u => (u.inboxOf "sink").map Message.payload) = [[], [.str "2", .str "1"]]
      ∧ (rivals.ticksBy (fun _ => Kernel.step scripted) 2).map
          (fun u => (u.inboxOf "sink").map Message.payload) = [[], [.str "1", .str "2"]]
      ∧ (rivals.runBy (Kernel.stepsOn scripted .two false rivalsOrders) 2).1.errors.map Prod.fst
          = ["second", "first"]
      ∧ (rivals.run scripted 2).1.errors.map Prod.fst = ["first", "second"] :=
  ⟨scripted_plain, by decide, by decide, by decide, by decide, by decide⟩

end TitoOS
