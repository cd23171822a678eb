import TitoOS.Lib.Transition

/-!
# Who closes the kernel

`Kernel.shutdown` may be called any number of times, from any threads. A call
with `wait=False` leaves the closing to a background thread, which it puts in
`shutdown_thread`; a call with `wait=True` takes that thread out of the field
and waits for it, or closes the kernel itself.

A call is an automaton over the atomic steps of its code: its block under the
lock, its look at `is_alive`, its `join`, its closing pass. The deferred threads
are numbered in the order in which they were started.

A call that takes a running thread out of the field leaves the next caller
without a trace of it. `closing_alone` says which runs stay clear of that, and
`orderly_iff` that no other runs do.
-/

namespace TitoOS

/-- How far a deferred shutdown thread has come. -/
inductive Deferred
  | started
  | passed
  | finished
  deriving DecidableEq, Repr

/-- How far a call of `shutdown` has come. -/
inductive CallPhase
  /-- before the block under the lock -/
  | entering (wait : Bool)
  /-- `wait=True`, after the block: `pending` was taken out of the field -/
  | holding (pending : Option Nat)
  /-- inside `pending.join()` -/
  | joining (pending : Nat)
  /-- `pending` was not alive: the closing pass comes next -/
  | poised
  /-- returned, or left with an exception -/
  | left
  deriving DecidableEq, Repr

structure ShutdownCall where
  /-- The deferred thread that makes the call; `none` is any other thread. -/
  caller : Option Nat
  phase : CallPhase
  deriving DecidableEq, Repr

/-- What the calls of `shutdown` share, and the calls themselves. -/
structure Handover where
  shutdownThread : Option Nat := none
  threads : List Deferred := []
  calls : List ShutdownCall := []
  deriving DecidableEq, Repr

inductive ShutdownEvent
  /-- `shutdown(wait)` is called -/
  | call (caller : Option Nat) (wait : Bool)
  /-- the block under the lock of call `i` -/
  | enter (i : Nat)
  /-- `pending is not None and pending.is_alive()` in call `i` -/
  | check (i : Nat)
  /-- the `join` of call `i` returns -/
  | joined (i : Nat)
  /-- the closing pass of call `i` -/
  | close (i : Nat)
  /-- the closing pass of deferred thread `t` -/
  | pass (t : Nat)
  /-- deferred thread `t` ends -/
  | ended (t : Nat)
  deriving DecidableEq, Repr

namespace Handover

/-- `Thread.is_alive`; `start` returns when the thread is alive. -/
def isAlive (s : Handover) (t : Nat) : Bool :=
  s.threads[t]?.any (· ≠ .finished)

/-- `pending is not None and pending.is_alive()`. -/
def isPending (s : Handover) (pending : Option Nat) : Bool :=
  pending.any s.isAlive

def goto (s : Handover) (i : Nat) (c : ShutdownCall) (phase : CallPhase) : Handover :=
  { s with calls := s.calls.set i { c with phase } }

/-- One atomic step; `none` when it cannot be made. -/
def step (s : Handover) : ShutdownEvent → Option Handover
  | .call caller wait =>
    -- a deferred thread makes calls while it runs: a driver's `close` may
    if caller.all s.isAlive then
      some { s with calls := s.calls ++ [⟨caller, .entering wait⟩] }
    else none
  | .enter i => do
    let c ← s.calls[i]?
    match c.phase with
    | .entering true =>
      some { s.goto i c (.holding s.shutdownThread) with shutdownThread := none }
    | .entering false =>
      if s.isPending s.shutdownThread then some (s.goto i c .left)
      else
        some { s.goto i c .left with
          shutdownThread := some s.threads.length
          threads := s.threads ++ [.started] }
    | _ => none
  | .check i => do
    let c ← s.calls[i]?
    match c.phase with
    | .holding (some t) =>
      if s.isAlive t then
        -- a thread that joins itself raises RuntimeError
        if c.caller = some t then some (s.goto i c .left) else some (s.goto i c (.joining t))
      else some (s.goto i c .poised)
    | .holding none => some (s.goto i c .poised)
    | _ => none
  | .joined i => do
    let c ← s.calls[i]?
    match c.phase with
    | .joining t => if s.isAlive t then none else some (s.goto i c .left)
    | _ => none
  | .close i => do
    let c ← s.calls[i]?
    match c.phase with
    | .poised => some (s.goto i c .left)
    | _ => none
  | .pass t =>
    if s.threads[t]? = some .started then some { s with threads := s.threads.set t .passed }
    else none
  | .ended t =>
    if s.threads[t]? = some .passed ∧ ∀ c ∈ s.calls, c.caller = some t → c.phase = .left then
      some { s with threads := s.threads.set t .finished }
    else none

abbrev Next (s : Handover) (e : ShutdownEvent) (t : Handover) : Prop :=
  s.step e = some t

/-- The deferred threads that have not finished. -/
def running (s : Handover) : List Nat :=
  (List.range s.threads.length).filter s.isAlive

/-- The event does not begin a closing pass next to a deferred thread. -/
def Alone (s : Handover) : ShutdownEvent → Prop
  | .close _ => s.running = []
  | .pass u => ∀ t ∈ s.running, t = u
  | _ => True

/-- Call `c` is past its block and finds no thread to wait for. -/
def heads (s : Handover) (c : ShutdownCall) : Bool :=
  match c.phase with
  | .poised => true
  | .holding pending => !s.isPending pending
  | _ => false

/-- The block of call `i` is going to start a deferred thread. -/
def startsThread (s : Handover) (i : Nat) : Bool :=
  s.calls[i]?.any (·.phase = .entering false) && !s.isPending s.shutdownThread

/-- A call enters its block only while the field names every running thread, and
starts a thread only when no other call is about to close the kernel. -/
def Orderly (s : Handover) : ShutdownEvent → Prop
  | .enter i => (∀ t ∈ s.running, s.shutdownThread = some t)
      ∧ (s.startsThread i = true → ∀ c ∈ s.calls, s.heads c = false)
  | _ => True

instance (s : Handover) : (e : ShutdownEvent) → Decidable (s.Alone e)
  | .close _ => inferInstanceAs (Decidable (_ = _))
  | .pass _ => inferInstanceAs (Decidable (∀ _ ∈ _, _))
  | .call .. | .enter _ | .check _ | .joined _ | .ended _ => isTrue trivial

instance (s : Handover) : (e : ShutdownEvent) → Decidable (s.Orderly e)
  | .enter _ => inferInstanceAs (Decidable (_ ∧ _))
  | .call .. | .close _ | .pass _ | .check _ | .joined _ | .ended _ => isTrue trivial

/-! ## What a step can do -/

/-- The steps, one by one. -/
inductive Move (s : Handover) : ShutdownEvent → Handover → Prop
  | call {caller : Option Nat} {wait : Bool} :
      Move s (.call caller wait) { s with calls := s.calls ++ [⟨caller, .entering wait⟩] }
  | takes {i : Nat} {c : ShutdownCall} (hc : s.calls[i]? = some c)
      (hphase : c.phase = .entering true) :
      Move s (.enter i) { s.goto i c (.holding s.shutdownThread) with shutdownThread := none }
  | defers {i : Nat} {c : ShutdownCall} (hc : s.calls[i]? = some c)
      (hphase : c.phase = .entering false) (hpending : s.isPending s.shutdownThread = true) :
      Move s (.enter i) (s.goto i c .left)
  | starts {i : Nat} {c : ShutdownCall} (hc : s.calls[i]? = some c)
      (hphase : c.phase = .entering false) (hpending : s.isPending s.shutdownThread = false) :
      Move s (.enter i) { s.goto i c .left with
        shutdownThread := some s.threads.length
        threads := s.threads ++ [.started] }
  | waits {i : Nat} {c : ShutdownCall} {phase : CallPhase} {t : Nat} (hc : s.calls[i]? = some c)
      (halive : s.isAlive t = true) (hphase : phase = .left ∨ phase = .joining t) :
      Move s (.check i) (s.goto i c phase)
  | readies {i : Nat} {c : ShutdownCall} {pending : Option Nat} (hc : s.calls[i]? = some c)
      (hphase : c.phase = .holding pending) (hpending : s.isPending pending = false) :
      Move s (.check i) (s.goto i c .poised)
  | joined {i : Nat} {c : ShutdownCall} (hc : s.calls[i]? = some c) :
      Move s (.joined i) (s.goto i c .left)
  | close {i : Nat} {c : ShutdownCall} (hc : s.calls[i]? = some c) (hphase : c.phase = .poised) :
      Move s (.close i) (s.goto i c .left)
  | pass {t : Nat} (ht : s.threads[t]? = some .started) :
      Move s (.pass t) { s with threads := s.threads.set t .passed }
  | ended {t : Nat} (ht : s.threads[t]? = some .passed) :
      Move s (.ended t) { s with threads := s.threads.set t .finished }

variable {s t : Handover} {e : ShutdownEvent}

theorem move_of_next (h : Next s e t) : Move s e t := by
  cases e with
  | call caller wait =>
    simp only [Next, step, Option.ite_none_right_eq_some] at h
    cases h.2
    exact .call
  | enter i =>
    obtain ⟨c, hc, h⟩ := Option.bind_eq_some_iff.mp h
    cases hphase : c.phase with
    | entering wait =>
      simp only [hphase] at h
      cases wait with
      | true => cases h; exact .takes hc hphase
      | false =>
        cases hpending : s.isPending s.shutdownThread with
        | true => simp only [hpending] at h; cases h; exact .defers hc hphase hpending
        | false => simp only [hpending] at h; cases h; exact .starts hc hphase hpending
    | _ => simp only [hphase] at h; cases h
  | check i =>
    obtain ⟨c, hc, h⟩ := Option.bind_eq_some_iff.mp h
    cases hphase : c.phase with
    | holding pending =>
      simp only [hphase] at h
      cases pending with
      | none => cases h; exact .readies hc hphase rfl
      | some u =>
        cases halive : s.isAlive u with
        | false => simp only [halive] at h; cases h; exact .readies hc hphase (by simpa [isPending])
        | true =>
          -- a call made on the pending thread itself does not join it
          by_cases hself : c.caller = some u
          · simp only [halive, hself] at h; cases h; exact .waits hc halive (.inl rfl)
          · simp only [halive, hself] at h; cases h; exact .waits hc halive (.inr rfl)
    | _ => simp only [hphase] at h; cases h
  | joined i =>
    obtain ⟨c, hc, h⟩ := Option.bind_eq_some_iff.mp h
    cases hphase : c.phase with
    | joining u =>
      simp only [hphase, Option.ite_none_left_eq_some] at h
      cases h.2
      exact .joined hc
    | _ => simp only [hphase] at h; cases h
  | close i =>
    obtain ⟨c, hc, h⟩ := Option.bind_eq_some_iff.mp h
    cases hphase : c.phase with
    | poised => simp only [hphase] at h; cases h; exact .close hc hphase
    | _ => simp only [hphase] at h; cases h
  | pass u =>
    simp only [Next, step, Option.ite_none_right_eq_some] at h
    cases h.2
    exact .pass h.1
  | ended u =>
    simp only [Next, step, Option.ite_none_right_eq_some] at h
    cases h.2
    exact .ended h.1.1

/-! ## The threads that run -/

theorem lt_of_isAlive {u : Nat} (h : s.isAlive u = true) : u < s.threads.length := by
  by_contra hge
  rw [isAlive, List.getElem?_eq_none (Nat.le_of_not_lt hge)] at h
  cases h

theorem mem_running_iff {u : Nat} : u ∈ s.running ↔ s.isAlive u = true := by
  simp only [running, List.mem_filter, List.mem_range, and_iff_right_iff_imp]
  exact lt_of_isAlive

theorem isPending_of_forall_ne {pending : Option Nat}
    (h : ∀ u, s.isAlive u = true → pending ≠ some u) :
    s.isPending pending = false := by
  cases pending with
  | none => rfl
  | some u => exact Bool.eq_false_iff.mpr fun halive => h u halive rfl

/-- A closing pass does not end its thread. -/
theorem isAlive_pass {u v : Nat} (hu : s.threads[u]? = some .started) :
    isAlive { s with threads := s.threads.set u .passed } v = s.isAlive v := by
  by_cases huv : u = v
  · subst huv
    simp [isAlive, hu, List.getElem?_set_self']
  · simp [isAlive, List.getElem?_set_ne huv]

theorem isAlive_ended {u v : Nat} :
    isAlive { s with threads := s.threads.set u .finished } v = (s.isAlive v && u != v) := by
  by_cases huv : u = v
  · subst huv
    cases hu : s.threads[u]? <;> simp [isAlive, List.getElem?_set_self', hu]
  · simp [isAlive, List.getElem?_set_ne huv, huv]

/-- A thread that has been started runs. -/
theorem isAlive_starts {pending : Option Nat} {calls : List ShutdownCall} {v : Nat} :
    isAlive ⟨pending, s.threads ++ [.started], calls⟩ v
      = (s.isAlive v || v == s.threads.length) := by
  rcases Nat.lt_trichotomy v s.threads.length with hlt | rfl | hgt
  · simp [isAlive, List.getElem?_append_left hlt, Nat.ne_of_lt hlt]
  · simp [isAlive]
  · have hnone : (s.threads ++ [Deferred.started])[v]? = none :=
      List.getElem?_eq_none (by simp; omega)
    have hnone' : s.threads[v]? = none := List.getElem?_eq_none (Nat.le_of_lt hgt)
    simp [isAlive, hnone, hnone', Nat.ne_of_gt hgt]

/-- A call that waits goes on waiting while its thread runs. -/
theorem heads_mono (h : ∀ u, s.isAlive u = true → t.isAlive u = true) {c : ShutdownCall}
    (hc : s.heads c = false) : t.heads c = false := by
  unfold heads at hc ⊢
  cases hphase : c.phase with
  | holding pending =>
    simp only [hphase, Bool.not_eq_false'] at hc ⊢
    obtain ⟨u, hpending, hu⟩ := (Option.any_eq_true _ _).mp hc
    exact (Option.any_eq_true _ _).mpr ⟨u, hpending, h u hu⟩
  | _ => simp [hphase] at hc ⊢

/-! ## The invariant of orderly runs -/

/-- There is one running thread at most, and while there is one every call past
its block waits for it. -/
structure Settled (s : Handover) : Prop where
  single : ∀ {u v}, s.isAlive u = true → s.isAlive v = true → u = v
  waits : ∀ {u}, s.isAlive u = true → ∀ c ∈ s.calls, s.heads c = false
  field : ∀ {u}, s.shutdownThread = some u → u < s.threads.length
  held : ∀ c ∈ s.calls, ∀ {u}, c.phase = .holding (some u) → u < s.threads.length

namespace Settled

theorem init : Settled {} where
  single h := by cases h
  waits h := by cases h
  field h := by cases h
  held c h := by cases h

/-- One call moves on, the threads do not. -/
theorem goto (h : Settled s) {i : Nat} {c : ShutdownCall} {phase : CallPhase}
    {field : Option Nat} (hfield : ∀ {u}, field = some u → u < s.threads.length)
    (hheads : ∀ {u}, s.isAlive u = true → s.heads { c with phase } = false)
    (hheld : ∀ {u}, phase = .holding (some u) → u < s.threads.length) :
    Settled { s.goto i c phase with shutdownThread := field } where
  single := h.single
  waits hu c' hc' := by
    rcases List.mem_or_eq_of_mem_set hc' with hc' | rfl
    · exact h.waits hu c' hc'
    · exact hheads hu
  field := hfield
  held c' hc' := by
    rcases List.mem_or_eq_of_mem_set hc' with hc' | rfl
    · exact h.held c' hc'
    · exact hheld

/-- The threads move on, and those that run have been running. -/
theorem threads (h : Settled s) {threads : List Deferred}
    (hlength : s.threads.length ≤ threads.length)
    (halive : ∀ u, isAlive { s with threads } u = true → s.isAlive u = true)
    (hheads : ∀ u, isAlive { s with threads } u = true →
      ∀ c ∈ s.calls, heads { s with threads } c = false) :
    Settled { s with threads } where
  single hu hv := h.single (halive _ hu) (halive _ hv)
  waits := hheads _
  field hu := Nat.lt_of_lt_of_le (h.field hu) hlength
  held c hc _ hu := Nat.lt_of_lt_of_le (h.held c hc hu) hlength

/-- **One step of an orderly run.** -/
theorem move (h : Settled s) (hmove : Move s e t) (horderly : s.Orderly e) :
    s.Alone e ∧ Settled t := by
  cases hmove with
  | call =>
    refine ⟨trivial, h.single, fun hu c hc => ?_, h.field, fun c hc => ?_⟩
    · rcases List.mem_append.mp hc with hc | hc
      · exact h.waits hu c hc
      · rw [List.mem_singleton.mp hc]; rfl
    · rcases List.mem_append.mp hc with hc | hc
      · exact h.held c hc
      · rw [List.mem_singleton.mp hc]; intro u hu; cases hu
  | @takes i c hc hphase =>
    refine ⟨trivial, h.goto (by simp) (fun {u} hu => ?_) fun hu => h.field (by simpa using hu)⟩
    have hfield := horderly.1 u (mem_running_iff.mpr hu)
    simpa [heads, hfield, isPending] using hu
  | defers hc hphase hpending => exact ⟨trivial, h.goto h.field (fun _ => rfl) (by simp)⟩
  | @starts i c hc hphase hpending =>
    -- the field names every running thread, and names none: nothing runs
    have hnone : ∀ u, s.isAlive u = false := by
      intro u
      by_contra hu
      rw [Bool.not_eq_false] at hu
      rw [horderly.1 u (mem_running_iff.mpr hu)] at hpending
      exact absurd hu (Bool.eq_false_iff.mp hpending)
    have hnew : ∀ u, isAlive ⟨some s.threads.length, s.threads ++ [.started],
        s.calls.set i { c with phase := .left }⟩ u = true → u = s.threads.length := by
      intro u hu
      rw [isAlive_starts, hnone u] at hu
      simpa using hu
    have hstarts : s.startsThread i = true := by simp [startsThread, hc, hphase, hpending]
    refine ⟨trivial, fun hu hv => (hnew _ hu).trans (hnew _ hv).symm, fun _ c' hc' => ?_,
      fun hu => ?_, fun c' hc' u hu => ?_⟩
    · rcases List.mem_or_eq_of_mem_set hc' with hc' | rfl
      · exact heads_mono (fun u hu => absurd hu (Bool.eq_false_iff.mp (hnone u)))
          (horderly.2 hstarts c' hc')
      · rfl
    · obtain rfl := Option.some.inj hu
      simp
    · rcases List.mem_or_eq_of_mem_set hc' with hc' | rfl
      · have hlt := h.held c' hc' hu
        simp only [List.length_append, List.length_singleton]
        omega
      · cases hu
  | waits hc halive hphase =>
    rcases hphase with rfl | rfl
    · exact ⟨trivial, h.goto h.field (fun _ => rfl) (by simp)⟩
    · exact ⟨trivial, h.goto h.field (fun _ => rfl) (by simp)⟩
  | @readies i c pending hc hphase hpending =>
    refine ⟨trivial, h.goto h.field (fun hu => ?_) (by simp)⟩
    have hwaits := h.waits hu c (List.mem_of_getElem? hc)
    simp [heads, hphase, hpending] at hwaits
  | joined hc => exact ⟨trivial, h.goto h.field (fun _ => rfl) (by simp)⟩
  | @close i c hc hphase =>
    refine ⟨List.eq_nil_iff_forall_not_mem.mpr fun u hu => ?_,
      h.goto h.field (fun _ => rfl) (by simp)⟩
    have hwaits := h.waits (mem_running_iff.mp hu) c (List.mem_of_getElem? hc)
    simp [heads, hphase] at hwaits
  | @pass u hu =>
    refine ⟨fun v hv => h.single (mem_running_iff.mp hv) (by simp [isAlive, hu]), h.threads
      (by simp) (fun v hv => by rwa [isAlive_pass hu] at hv) fun v hv c hc => ?_⟩
    rw [isAlive_pass hu] at hv
    exact heads_mono (fun w hw => by rwa [isAlive_pass hu]) (h.waits hv c hc)
  | @ended u hu =>
    -- the one thread that was running is the one that ends
    have hnone : ∀ v, isAlive { s with threads := s.threads.set u .finished } v ≠ true := by
      intro v hv
      rw [isAlive_ended, Bool.and_eq_true] at hv
      have hsame : u = v := h.single (by simp [isAlive, hu]) hv.1
      simp [hsame] at hv
    exact ⟨trivial, h.threads (by simp) (fun v hv => absurd hv (hnone v)) fun v hv =>
      absurd hv (hnone v)⟩

end Settled

/-! ## Orderly runs close once at a time -/

variable {es : List ShutdownEvent}

theorem orderly_run (h : Runs (Runs.Restricted Next Orderly) {} es s) :
    Runs (Runs.Restricted Next Alone) {} es s ∧ Settled s :=
  Runs.restricted (fun _ _ _ hsettled hnext horderly =>
    hsettled.move (move_of_next hnext) horderly) h .init

/-- **One closing pass at a time**: in a run whose calls enter in order, none
begins a closing pass next to a deferred thread that has not finished. -/
theorem closing_alone (h : Runs (Runs.Restricted Next Orderly) {} es s) :
    Runs (Runs.Restricted Next Alone) {} es s :=
  (orderly_run h).1

/-- A second caller of each kind while the deferred thread runs: one returns at
once, the other waits. -/
def orderlyCalls : List ShutdownEvent :=
  [.call none false, .enter 0, .call none false, .enter 1, .call none true, .enter 2, .check 2,
    .pass 0, .ended 0, .joined 2, .call none true, .enter 3, .check 3, .close 3]

theorem orderlyCalls_run : (orderlyCalls.foldlM (fun s e =>
    if Orderly s e then s.step e else none) ({} : Handover)).isSome = true := by decide

theorem closing_alone_orderlyCalls : Runs (Runs.Restricted Next Alone) {} orderlyCalls
    ((orderlyCalls.foldlM (fun s e => if Orderly s e then s.step e else none)
      ({} : Handover)).get orderlyCalls_run) :=
  closing_alone (Runs.restricted_of_foldlM (Option.some_get orderlyCalls_run).symm)

/-- The second caller waits for the thread, the third does not see it. -/
def hiddenThread : List ShutdownEvent :=
  [.call none false, .enter 0, .call none true, .enter 1, .check 1, .call none true, .enter 2,
    .check 2]

theorem hiddenThread_run : hiddenThread.foldlM step {} = some {
    shutdownThread := none
    threads := [.started]
    calls := [⟨none, .left⟩, ⟨none, .joining 0⟩, ⟨none, .poised⟩] } := by decide

theorem second_closing_pass : ¬ ∀ (es : List ShutdownEvent) (s : Handover),
    Runs Next {} es s → Runs (Runs.Restricted Next Alone) {} es s := by
  intro h
  have hclose : Runs Next {} (hiddenThread ++ [.close 2]) _ :=
    (Runs.iff_foldlM.mpr hiddenThread_run).snoc rfl
  obtain ⟨t, hrun, hlast⟩ := (h _ _ hclose).last
  have ht := Runs.iff_foldlM.mp hrun.of_restricted
  rw [hiddenThread_run] at ht
  cases ht
  exact absurd hlast.2 (by decide)

/-! ## No other runs do -/

/-- A call that finds no thread to wait for goes on to its closing pass. -/
theorem closes_of_heads {i : Nat} {c : ShutdownCall} (hc : s.calls[i]? = some c)
    (hheads : s.heads c = true) :
    ∃ fs u v, Runs (Runs.Restricted Next Orderly) s fs u ∧ u.running = s.running
      ∧ Next u (.close i) v := by
  cases hphase : c.phase with
  | poised =>
    exact ⟨[], s, s.goto i c .left, .nil, rfl, by simp [Next, step, hc, hphase]⟩
  | holding pending =>
    have hpending : s.isPending pending = false := by simpa [heads, hphase] using hheads
    have hlt : i < s.calls.length := (List.getElem?_eq_some_iff.mp hc).1
    have hcheck : Next s (.check i) (s.goto i c .poised) := by
      cases pending with
      | none => simp [Next, step, hc, hphase]
      | some u =>
        have hu : s.isAlive u = false := by simpa [isPending] using hpending
        simp [Next, step, hc, hphase, hu]
    exact ⟨[.check i], s.goto i c .poised, _, .snoc .nil ⟨hcheck, trivial⟩, rfl, by
      simp [Next, step, goto, hlt]; rfl⟩
  | _ => simp [heads, hphase] at hheads

/-- No orderly way to go on begins a closing pass next to a deferred thread. -/
def StaysAlone (s : Handover) : Prop :=
  ∀ fs u f v, Runs (Runs.Restricted Next Orderly) s fs u → Next u f v → u.Orderly f → u.Alone f

theorem StaysAlone.running_eq_nil (h : StaysAlone s) {i : Nat} {c : ShutdownCall}
    (hc : s.calls[i]? = some c) (hheads : s.heads c = true) : s.running = [] := by
  obtain ⟨fs, u, v, hrun, hrunning, hnext⟩ := closes_of_heads hc hheads
  exact hrunning ▸ h fs u _ v hrun hnext trivial

/-- Where nothing goes wrong, the field named every running thread. -/
theorem field_of_staysAlone (hsettled : s.Settled) {i : Nat} (hmove : Move s (.enter i) t)
    (h : StaysAlone t) {u : Nat} (hu : s.isAlive u = true) : s.shutdownThread = some u := by
  by_contra hfield
  have hpending : s.isPending s.shutdownThread = false :=
    isPending_of_forall_ne fun v hv => hsettled.single hu hv ▸ hfield
  cases hmove with
  | @takes i c hc hphase =>
    have hlt : i < s.calls.length := (List.getElem?_eq_some_iff.mp hc).1
    have hnil := h.running_eq_nil (i := i) (by simp [goto, hlt]; rfl)
      (by simp only [heads, Bool.not_eq_true']; exact hpending)
    exact List.eq_nil_iff_forall_not_mem.mp hnil u (mem_running_iff.mpr hu)
  | defers _ _ hpending' => rw [hpending] at hpending'; cases hpending'
  | starts hc hphase =>
    have halone := h [] _ (.pass s.threads.length) _ .nil (by simp [Next, step]; rfl) trivial
    have hsame := halone u (mem_running_iff.mpr (by rw [isAlive_starts, hu]; rfl))
    exact absurd (lt_of_isAlive hu) (by omega)

/-- Where nothing goes wrong, a thread is started only while no other call is
about to close the kernel. -/
theorem heads_of_staysAlone (hsettled : s.Settled) {i : Nat} (hmove : Move s (.enter i) t)
    (h : StaysAlone t) (hstarts : s.startsThread i = true) {c : ShutdownCall}
    (hc : c ∈ s.calls) : s.heads c = false := by
  by_contra hheads
  rw [Bool.not_eq_false] at hheads
  obtain ⟨j, hj⟩ := List.mem_iff_getElem?.mp hc
  rw [startsThread, Bool.and_eq_true, Bool.not_eq_true'] at hstarts
  cases hmove with
  | takes hi hphase => simp [hi, hphase] at hstarts
  | defers _ _ hpending => rw [hpending] at hstarts; cases hstarts.2
  | @starts i d hi hphase hpending =>
    have hij : i ≠ j := by
      rintro rfl
      rw [hi] at hj
      cases hj
      simp [heads, hphase] at hheads
    -- the other call is about to close still, next to the new thread
    have hnil := h.running_eq_nil (i := j) (c := c)
      (by simpa [goto, List.getElem?_set_ne hij] using hj) (by
        unfold heads at hheads ⊢
        cases hp : c.phase with
        | holding pending =>
          simp only [hp, Bool.not_eq_true'] at hheads ⊢
          refine isPending_of_forall_ne fun u hu heq => ?_
          subst heq
          have hlt := hsettled.held c hc hp
          rw [isAlive_starts, Bool.or_eq_true, beq_iff_eq] at hu
          rcases hu with hu | rfl
          · exact absurd hheads (by simpa [isPending] using hu)
          · exact Nat.lt_irrefl _ hlt
        | _ => simp [hp] at hheads ⊢)
    exact List.eq_nil_iff_forall_not_mem.mp hnil s.threads.length
      (mem_running_iff.mpr (by rw [isAlive_starts]; simp))

/-- **The condition is exact**: a next step keeps it exactly when no orderly
way to go on begins a closing pass next to a deferred thread. -/
theorem orderly_iff (hrun : Runs (Runs.Restricted Next Orderly) {} es s) (h : Next s e t) :
    s.Orderly e ↔ t.StaysAlone := by
  have hsettled := (orderly_run hrun).2
  constructor
  · intro horderly fs u f v hfs hnext hf
    have hsettled' := (orderly_run ((hrun.snoc ⟨h, horderly⟩).append hfs)).2
    exact (hsettled'.move (move_of_next hnext) hf).1
  · intro halone
    have hmove := move_of_next h
    cases e with
    | enter i =>
      exact ⟨fun u hu => field_of_staysAlone hsettled hmove halone (mem_running_iff.mp hu),
        fun hstarts c hc => heads_of_staysAlone hsettled hmove halone hstarts hc⟩
    | _ => trivial

end Handover

end TitoOS
