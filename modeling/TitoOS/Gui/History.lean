import TitoOS.Gui.Gate
import TitoOS.Kernel.Completed

/-!
# The history of the dashboard

`KernelGUI.reports` is meant to show the last ticks that went through the GUI.
`step` records every tick it completes. `run` records the reports that
`Kernel.run` returns, so when a tick raises after others have completed, those
are lost (`forgetful`). That is the only way to lose one: the history is right
after every call exactly when no run is broken off in a later tick than its
first (`history_iff`).
-/

namespace TitoOS

variable {σ : Type}

/-- A call of an operation, with the orders of the atomic actions of its ticks. -/
structure Turn where
  call : GuiCall
  scheds : Nat → List Nat

namespace KernelGUI

/-- The GUI after the calls `turns`. -/
def after (d : Deployment σ) (gui : KernelGUI σ) (turns : List Turn) : KernelGUI σ :=
  turns.foldl (fun g t => (g.perform d t.scheds t.call).1) gui

/-- The reports of the ticks that a call completes. -/
def completedIn (d : Deployment σ) (gui : KernelGUI σ) (t : Turn) : List TickReport :=
  match t.call with
  | .step => (gui.kernel.stepWith d.code d.backend d.loop (t.scheds 0)).2.toOption.toList
  | .run (.int n) =>
    if 0 ≤ n ∧ n ≤ MAX_RUN_TICKS then
      gui.kernel.completedBy (Kernel.stepsOn d.code d.backend d.loop t.scheds) n
    else []
  | _ => []

/-- The reports of the ticks that the calls `turns` complete. -/
def completed (d : Deployment σ) : KernelGUI σ → List Turn → List TickReport
  | _, [] => []
  | gui, t :: rest =>
    gui.completedIn d t ++ completed d (gui.perform d t.scheds t.call).1 rest

/-- At most `n` calls of `step`, stopped where `run` stops: when nothing is left
to run, or when one of them raises. -/
def steps (d : Deployment σ) (scheds : Nat → List Nat) (i : Nat) : Nat → KernelGUI σ → KernelGUI σ
  | 0, gui => gui
  | n + 1, gui =>
    if gui.kernel.isIdle then gui
    else
      match gui.step d (scheds i) with
      | (gui', .error _) => gui'
      | (gui', .ok _) => steps d scheds (i + 1) n gui'

/-- **What the history is for.** After each of the calls it is the last
`history` reports of the ticks completed so far; and a run leaves it as so many
steps do. -/
structure RecordsAll (d : Deployment σ) (gui : KernelGUI σ) (turns : List Turn) : Prop where
  last : ∀ past, past <+: turns →
    (gui.after d past).reports.items = (gui.completed d past).rtake gui.history
  like_steps : ∀ past t n, past ++ [t] <+: turns → t.call = .run (.int n) →
    0 ≤ n → n ≤ MAX_RUN_TICKS →
    (gui.after d (past ++ [t])).reports.items
      = ((gui.after d past).steps d t.scheds 0 n.toNat).reports.items

/-- If the call is a run, no tick of it raises but its first. -/
def SteadyIn (d : Deployment σ) (gui : KernelGUI σ) (t : Turn) : Prop :=
  ∀ n, t.call = .run (.int n) → 0 ≤ n → n ≤ MAX_RUN_TICKS →
    gui.kernel.Steady (Kernel.stepsOn d.code d.backend d.loop t.scheds) n

variable {d : Deployment σ} {gui gui' : KernelGUI σ} {t : Turn}

/-! ## One call -/

/-- `gui'` is `gui` after a call that has completed the ticks `done`. Their
reports are in the history if `kept`, and otherwise none of them is. -/
structure Recording (gui gui' : KernelGUI σ) (done : List TickReport) (kept : Prop) : Prop where
  history : gui'.history = gui.history
  counts : gui.kernel.tick ≤ gui'.kernel.tick
  numbers : ∀ r ∈ done, gui.kernel.tick < r.tick ∧ r.tick ≤ gui'.kernel.tick
  records : kept → gui'.reports.items = (gui.reports.items ++ done).rtake gui.history
  loses : ¬kept → gui'.reports.items = gui.reports.items ∧ done ≠ []

namespace Recording

variable {done : List TickReport} {kept : Prop} {kernel : Kernel σ}

/-- A call that completes no tick. -/
theorem none (hcounts : gui.kernel.tick ≤ kernel.tick) (hkept : kept) :
    Recording gui { gui with kernel } [] kept where
  history := rfl
  counts := hcounts
  numbers _ hr := absurd hr List.not_mem_nil
  records _ := by rw [List.append_nil, Deque.rtake_items]
  loses h := absurd hkept h

theorem congr {kept' : Prop} (h : Recording gui gui' done kept) (hiff : kept ↔ kept') :
    Recording gui gui' done kept' := propext hiff ▸ h

end Recording

/-- **A step records the tick it completes.** -/
theorem recording_step (d : Deployment σ) (sched : List Nat) (gui : KernelGUI σ) :
    Recording gui (gui.step d sched).1
      (gui.kernel.stepWith d.code d.backend d.loop sched).2.toOption.toList True := by
  have hcounts := Kernel.tick_stepWith d.code d.backend d.loop sched gui.kernel
  unfold step
  cases hstep : gui.kernel.stepWith d.code d.backend d.loop sched with
  | mk kernel result =>
    rw [hstep] at hcounts
    dsimp only at hcounts
    cases result with
    | error e => exact .none (by omega) trivial
    | ok report =>
      have hnumber := Kernel.tick_of_stepWith hstep
      have hnew : gui.kernel.tick < report.tick := by omega
      have hlast : report.tick ≤ kernel.tick := by omega
      exact
        { history := rfl
          counts := hnew.le.trans hlast
          numbers := fun r hr => by
            obtain rfl := List.mem_singleton.mp hr
            exact ⟨hnew, hlast⟩
          records := fun _ => Deque.items_append ..
          loses := fun h => absurd trivial h }

/-- **A run records the ticks it completes**, unless a later one than the first
raises. -/
theorem recording_run (d : Deployment σ) (scheds : Nat → List Nat) (gui : KernelGUI σ) {n : Int}
    (hbudget : 0 ≤ n ∧ n ≤ MAX_RUN_TICKS) :
    Recording gui (gui.run d scheds (.int n)).1
      (gui.kernel.completedBy (Kernel.stepsOn d.code d.backend d.loop scheds) n)
      (gui.kernel.Steady (Kernel.stepsOn d.code d.backend d.loop scheds) n) := by
  obtain ⟨hcounts, hnumbers⟩ := (Kernel.counts_stepsOn d.code d.backend d.loop scheds).completedBy
    hbudget.1 gui.kernel
  have hsteady : gui.kernel.Steady (Kernel.stepsOn d.code d.backend d.loop scheds) n ↔ _ :=
    Kernel.steady_iff hbudget.1
  simp only [run, if_pos hbudget]
  cases hrun : gui.kernel.runBy (Kernel.stepsOn d.code d.backend d.loop scheds) n with
  | mk kernel result =>
    rw [hrun] at hcounts hnumbers hsteady
    cases result with
    | error e =>
      -- the reports are gone, if there are any
      refine ⟨rfl, hcounts, hnumbers, fun h => ?_, fun h => ⟨rfl, fun hnone => ?_⟩⟩
      · obtain hok | hnone := hsteady.mp h
        · cases hok
        · rw [hnone, List.append_nil, Deque.rtake_items]
      · exact h (hsteady.mpr (.inr hnone))
    | ok reports =>
      rw [Kernel.completedBy_of_ok hrun] at hnumbers ⊢
      exact ⟨rfl, hcounts, hnumbers, fun _ => Deque.items_extend ..,
        fun h => absurd (hsteady.mpr (.inl rfl)) h⟩

/-- A message that is posted or refused changes neither the history nor the
counter. -/
theorem send_eq (lib : PythonLib) (gui : KernelGUI σ) (recipient payload metadata : Value) :
    ∃ bus, (gui.send lib recipient payload metadata).1
      = { gui with kernel := { gui.kernel with bus } } := by
  have hpost : ∀ m, ∃ bus, (gui.post lib m).1
      = { gui with kernel := { gui.kernel with bus } } := by
    intro m
    unfold post
    split
    · exact ⟨gui.kernel.bus, rfl⟩
    · exact ⟨_, rfl⟩
  unfold send
  split
  · split
    · exact ⟨gui.kernel.bus, rfl⟩
    · split
      · exact hpost _
      · exact hpost _
      · exact ⟨gui.kernel.bus, rfl⟩
  · exact ⟨gui.kernel.bus, rfl⟩

/-- **What each call records.** -/
theorem recording (d : Deployment σ) (gui : KernelGUI σ) (t : Turn) :
    Recording gui (gui.perform d t.scheds t.call).1 (gui.completedIn d t) (gui.SteadyIn d t) := by
  obtain ⟨call, scheds⟩ := t
  cases call with
  | step =>
    exact (recording_step d (scheds 0) gui).congr ⟨(fun _ n h => by cases h), fun _ => trivial⟩
  | send recipient payload metadata =>
    obtain ⟨bus, hsend⟩ := gui.send_eq d.lib recipient payload metadata
    simp only [perform, hsend]
    exact .none le_rfl fun n h => by cases h
  | run maxTicks =>
    cases maxTicks with
    | int n =>
      by_cases hbudget : 0 ≤ n ∧ n ≤ MAX_RUN_TICKS
      · have hsteady : gui.kernel.Steady (Kernel.stepsOn d.code d.backend d.loop scheds) n
            ↔ gui.SteadyIn d ⟨.run (.int n), scheds⟩ := by
          constructor
          · rintro h m hm - -
            cases hm
            exact h
          · exact fun h => h n rfl hbudget.1 hbudget.2
        simp only [completedIn, if_pos hbudget]
        exact (gui.recording_run d scheds hbudget).congr hsteady
      · simp only [completedIn, perform, run, if_neg hbudget]
        refine .none le_rfl fun m hm hpos hmax => ?_
        cases hm
        exact absurd ⟨hpos, hmax⟩ hbudget
    | _ => exact .none le_rfl fun n h => by cases h

/-! ## Sequences of calls -/

@[simp] theorem after_nil (d : Deployment σ) (gui : KernelGUI σ) : gui.after d [] = gui := rfl

theorem after_concat (d : Deployment σ) (gui : KernelGUI σ) (past : List Turn) (t : Turn) :
    gui.after d (past ++ [t]) = ((gui.after d past).perform d t.scheds t.call).1 := by
  simp [after]

theorem completed_concat (d : Deployment σ) (gui : KernelGUI σ) (past : List Turn) (t : Turn) :
    gui.completed d (past ++ [t])
      = gui.completed d past ++ (gui.after d past).completedIn d t := by
  induction past generalizing gui with
  | nil => simp [completed]
  | cons s rest ih =>
    show gui.completedIn d s ++ completed d _ (rest ++ [t]) = _
    rw [ih, ← List.append_assoc]
    rfl

theorem recording_after (d : Deployment σ) (gui : KernelGUI σ) (past : List Turn) (t : Turn) :
    Recording (gui.after d past) (gui.after d (past ++ [t])) ((gui.after d past).completedIn d t)
      ((gui.after d past).SteadyIn d t) :=
  after_concat d gui past t ▸ recording d (gui.after d past) t

theorem history_after (d : Deployment σ) (gui : KernelGUI σ) (past : List Turn) :
    (gui.after d past).history = gui.history := by
  induction past using List.reverseRecOn with
  | nil => rfl
  | append_singleton past t ih => rw [(recording_after d gui past t).history, ih]

/-- No tick completed so far has a number the counter has not reached. -/
theorem tick_le_of_mem_completed {past : List Turn} {r : TickReport}
    (hr : r ∈ gui.completed d past) : r.tick ≤ (gui.after d past).kernel.tick := by
  induction past using List.reverseRecOn with
  | nil => cases hr
  | append_singleton past t ih =>
    have hrecording := recording_after d gui past t
    rw [completed_concat] at hr
    rcases List.mem_append.mp hr with hearlier | hnow
    · exact (ih hearlier).trans hrecording.counts
    · exact (hrecording.numbers r hnow).2

/-- What the history shows after a call that keeps its ticks. -/
theorem items_after_concat {past : List Turn}
    (h : (gui.after d past).reports.items = (gui.completed d past).rtake gui.history)
    (hsteady : (gui.after d past).SteadyIn d t) :
    (gui.after d (past ++ [t])).reports.items
      = (gui.completed d (past ++ [t])).rtake gui.history := by
  rw [(recording_after d gui past t).records hsteady, h, history_after, completed_concat,
    Deque.rtake_rtake_append]

/-- **While no run is broken off in a later tick than its first**, the history is
the end of what has been completed. -/
theorem items_after (hnew : gui.reports = ∅) {past : List Turn}
    (hsteady : ∀ past' t, past' ++ [t] <+: past → (gui.after d past').SteadyIn d t) :
    (gui.after d past).reports.items = (gui.completed d past).rtake gui.history := by
  induction past using List.reverseRecOn with
  | nil => simp [hnew, completed]
  | append_singleton past t ih =>
    have hearlier := ih fun past' t' h => hsteady past' t' (h.trans (List.prefix_append _ _))
    exact items_after_concat hearlier (hsteady past t (List.prefix_refl _))

/-- A run that is broken off in a later tick than its first leaves a history in
which the last completed tick is missing. -/
theorem items_after_lost {past : List Turn}
    (h : (gui.after d past).reports.items = (gui.completed d past).rtake gui.history)
    (hlost : ¬(gui.after d past).SteadyIn d t) :
    (gui.after d (past ++ [t])).reports.items
      ≠ (gui.completed d (past ++ [t])).rtake gui.history := by
  intro heq
  have hrecording := recording_after d gui past t
  obtain ⟨hsame, hsome⟩ := hrecording.loses hlost
  obtain ⟨done, r, hdone⟩ := (List.eq_nil_or_concat _).resolve_left hsome
  rw [List.concat_eq_append] at hdone
  rw [hsame, h, completed_concat, hdone, ← List.append_assoc] at heq
  -- the last completed tick would have been completed before the call already
  have hmem : r ∈ gui.completed d past := by
    have hlast := Deque.mem_rtake_concat gui.history_pos (gui.completed d past ++ done) r
    rw [← heq] at hlast
    exact List.mem_of_mem_drop hlast
  have hle := tick_le_of_mem_completed hmem
  have hlt := (hrecording.numbers r (by simp [hdone])).1
  omega

/-! ## Steps in place of a run -/

theorem steps_of_idle (hidle : gui.kernel.isIdle = true) (d : Deployment σ)
    (scheds : Nat → List Nat) (i n : Nat) : gui.steps d scheds i n = gui := by
  cases n with
  | zero => rfl
  | succ n => rw [steps, if_pos hidle]

theorem steps_of_raises {scheds : Nat → List Nat} {i : Nat} {k : Kernel σ} {e : Exc}
    (hidle : gui.kernel.isIdle = false)
    (h : gui.kernel.stepWith d.code d.backend d.loop (scheds i) = (k, .error e)) (n : Nat) :
    gui.steps d scheds i (n + 1) = { gui with kernel := k } := by
  simp [steps, hidle, step, h]

theorem steps_of_returns {scheds : Nat → List Nat} {i : Nat} {k : Kernel σ} {report : TickReport}
    (hidle : gui.kernel.isIdle = false)
    (h : gui.kernel.stepWith d.code d.backend d.loop (scheds i) = (k, .ok report)) (n : Nat) :
    gui.steps d scheds i (n + 1)
      = steps d scheds (i + 1) n
          { gui with kernel := k, reports := gui.reports.append report } := by
  simp [steps, hidle, step, h]

/-- **What steps record** is what they complete, however they end. -/
theorem items_steps (d : Deployment σ) (scheds : Nat → List Nat) (i n : Nat) (gui : KernelGUI σ) :
    (gui.steps d scheds i n).reports.items
      = (gui.reports.items ++ Kernel.completedLoopBy
          (Kernel.stepsOn d.code d.backend d.loop scheds) i n gui.kernel).rtake gui.history := by
  induction n generalizing i gui with
  | zero => simp [steps, Kernel.completedLoopBy, Kernel.ticksLoopBy, Deque.rtake_items]
  | succ n ih =>
    cases hidle : gui.kernel.isIdle with
    | true =>
      rw [steps_of_idle hidle, Kernel.completedLoopBy_of_idle hidle, List.append_nil,
        Deque.rtake_items]
    | false =>
      rcases hstep : gui.kernel.stepWith d.code d.backend d.loop (scheds i) with ⟨k, e | report⟩
      · rw [steps_of_raises hidle hstep, Kernel.completedLoopBy_of_raises hstep, List.append_nil,
          Deque.rtake_items]
      · rw [steps_of_returns hidle hstep, ih, Kernel.completedLoopBy_of_returns hidle hstep,
          Deque.items_append, Deque.rtake_rtake_append, List.append_assoc]
        rfl

/-- A run and as many steps complete the same ticks. -/
theorem completedIn_run {n : Int} (hcall : t.call = .run (.int n)) (hpos : 0 ≤ n)
    (hmax : n ≤ MAX_RUN_TICKS) (d : Deployment σ) (gui : KernelGUI σ) :
    gui.completedIn d t = Kernel.completedLoopBy
      (Kernel.stepsOn d.code d.backend d.loop t.scheds) 0 n.toNat gui.kernel := by
  simp only [completedIn, hcall, if_pos (And.intro hpos hmax)]
  rw [Kernel.completedBy_eq _ hpos]
  exact Kernel.completedLoopBy_stopped
    (fun i k reason => k.stepWith_stopped d.code d.backend d.loop (t.scheds i) reason) ..

end KernelGUI

open KernelGUI in
/-- **When the history is right.** After every call the history consists of the
last completed ticks, and every run leaves the history that as many steps leave,
exactly when in every run no tick raises but the first. -/
theorem history_iff (d : Deployment σ) (gui : KernelGUI σ) (hnew : gui.reports = ∅)
    (turns : List Turn) :
    gui.RecordsAll d turns
      ↔ ∀ past t, past ++ [t] <+: turns → (gui.after d past).SteadyIn d t := by
  constructor
  · intro h past t hturns
    by_contra hlost
    exact items_after_lost (h.last past ((List.prefix_append _ _).trans hturns)) hlost
      (h.last _ hturns)
  · intro h
    refine ⟨fun past hpast => ?_, fun past t n hturns hcall hpos hmax => ?_⟩
    · exact items_after hnew fun past' t hpast' => h past' t (hpast'.trans hpast)
    · rw [(recording_after d gui past t).records (h past t hturns), items_steps,
        completedIn_run hcall hpos hmax]

/-! ## A history that forgets a tick -/

/-- The agent `true` is async, and the others start it. -/
def sowing : AgentCode Bool where
  step s _ _ _ :=
    if s then .ret
    else
      .spawn { name := "shoot", name_ne := by decide, body := .user true, fresh_state := rfl,
               fresh_restarts := FreshAgent.default_restarts } fun _ => .ret
  onRestart s _ := (s, none)
  isAsync s := s
  kind _ := "Sower"
  saveState _ := ∅
  loadState s _ := .ok s

/-- A kernel with an agent that starts an async one, on `SerialBackend`. -/
def seedbed : KernelGUI Bool where
  kernel := { objects := [{ name := "seed", name_ne := by decide, body := .user false }]
              agents := Dict.ofList [("seed", 0)]
              bus := { mailboxes := Dict.ofList [("seed", [])] } }
  port := 8000
  sender_ne := KernelGUI.default_sender_ne
  history_pos := KernelGUI.default_history_pos

/-- It runs on `SerialBackend`. -/
def serialSeedbed : Deployment Bool where
  code := sowing
  backend := .serial
  lib := asciiLib

/-- `run(2)`: one whole tick, and one that is refused. -/
def brokenRun : Turn where
  call := .run (.int 2)
  scheds i := if i = 0 then [0, 0, 0] else []

/-- **The reports of a run that is broken off are lost.** -/
theorem forgetful : seedbed.reports = ∅
    ∧ seedbed.kernel.AllowsRun sowing .serial false brokenRun.scheds 2
    ∧ ¬seedbed.RecordsAll serialSeedbed [brokenRun] := by
  refine ⟨rfl, by decide, fun h => ?_⟩
  have hlast := h.last [brokenRun] (List.prefix_refl _)
  revert hlast
  decide

/-- `run(1)`, with the order of the actions of its tick. -/
def shortRun (sched : List Nat) : Turn where
  call := .run (.int 1)
  scheds _ := sched

/-- The same two ticks, each in a run of its own, are recorded as they should. -/
theorem history_iff_short :
    seedbed.RecordsAll serialSeedbed [shortRun [0, 0, 0], shortRun []] := by
  refine (history_iff serialSeedbed seedbed rfl _).mpr fun past t hturns n hcall _ _ => ?_
  have hmem : t ∈ [shortRun [0, 0, 0], shortRun []] := hturns.subset (by simp)
  have hshort : t.call = .run (.int 1) := by
    rcases List.mem_cons.mp hmem with rfl | hmem
    · rfl
    · rw [List.mem_singleton.mp hmem]
      rfl
  cases hshort.symm.trans hcall
  exact Kernel.steady_of_le_one le_rfl

end TitoOS
