import TitoOS.Shutdown.Closing

/-!
# Passes that overtake a step

The condition of `closes_after_steps` leaves nothing out: a pass that breaks it
can go on, in order from then on, until it closes an integration while a step of
the tick is executing (`Closing.orderly_iff`).

A pass waits for the workers of one pool at most. So the argument has two parts:
the tick can go on until a step executes beside that pool (`MayBusy`), and then
the pool can be drained (`drain`) until the pass closes
(`overtakes_of_busyBeside`).
-/

namespace TitoOS

namespace Closing

variable {workers : Nat} {s t : Closing} {e : ClosingEvent} {p : Option Nat} {k : Nat}

/-- Orderly runs on pools of `workers` threads. -/
abbrev OrderlyRuns (workers : Nat) : Closing → List ClosingEvent → Closing → Prop :=
  Runs (Runs.Restricted (Next workers) Orderly)

/-- An orderly way to go on has the pass `k` close an integration while a step is
executing. -/
def Overtakes (workers : Nat) (s : Closing) (k : Nat) : Prop :=
  ∃ fs u v, OrderlyRuns workers s fs u ∧ Next workers u (.close k) v ∧ ¬ u.Still

theorem Overtakes.cons (hnext : Next workers s e t) (horderly : s.Orderly e)
    (h : Overtakes workers t k) : Overtakes workers s k := by
  obtain ⟨fs, u, v, hrun, hclose, hstill⟩ := h
  exact ⟨e :: fs, u, v, hrun.cons ⟨hnext, horderly⟩, hclose, hstill⟩

theorem Overtakes.after {es : List ClosingEvent} (hrun : OrderlyRuns workers s es t)
    (h : Overtakes workers t k) : Overtakes workers s k := by
  obtain ⟨fs, u, v, hrun', hclose, hstill⟩ := h
  exact ⟨es ++ fs, u, v, hrun.append hrun', hclose, hstill⟩

/-! ## Draining a pool -/

theorem setPool_of_getElem? {q : Nat} {pool : Pool} (hpool : s.pools[q]? = some pool) :
    s.setPool q pool = s := by
  obtain ⟨hlt, rfl⟩ := List.getElem?_eq_some_iff.mp hpool
  rw [setPool, List.set_getElem_self]

/-- The workers of a pool can finish what it was given, and nothing else moves. -/
theorem drain (hworkers : 0 < workers) {q : Nat} {pool : Pool} (hpool : s.pools[q]? = some pool) :
    ∃ es, OrderlyRuns workers s es (s.setPool q { pool with queue := [], executing := [] }) := by
  generalize hn : 2 * pool.queue.length + pool.executing.length = n
  induction n using Nat.strongRecOn generalizing s pool with
  | ind n ih =>
    have hlt : q < s.pools.length := (List.getElem?_eq_some_iff.mp hpool).1
    have hset : ∀ pool', (s.setPool q pool').pools[q]? = some pool' := fun pool' => by
      simp [setPool, hlt]
    have htwice : ∀ pool', (s.setPool q pool').setPool q { pool with queue := [], executing := [] }
        = s.setPool q { pool with queue := [], executing := [] } := fun pool' => by
      simp [setPool]
    cases hexecuting : pool.executing with
    | cons i rest =>
      -- the oldest step ends
      obtain ⟨es, hes⟩ := ih (2 * pool.queue.length + rest.length)
        (by rw [← hn, hexecuting, List.length_cons]; omega)
        (hset { pool with executing := rest }) rfl
      rw [htwice] at hes
      refine ⟨.finish q i :: es, hes.cons ⟨?_, trivial⟩⟩
      simp [Next, step, hpool, hexecuting]
    | nil =>
      cases hqueue : pool.queue with
      | cons i rest =>
        -- a worker is free
        obtain ⟨es, hes⟩ := ih (2 * rest.length + 1)
          (by rw [← hn, hexecuting, hqueue, List.length_cons, List.length_nil]; omega)
          (hset { pool with queue := rest, executing := [i] }) rfl
        rw [htwice] at hes
        refine ⟨.pick q :: es, hes.cons ⟨?_, trivial⟩⟩
        simp [Next, step, hpool, hqueue, hexecuting, hworkers]
      | nil =>
        have hsame : ({ pool with queue := [], executing := [] } : Pool) = pool := by
          obtain ⟨closed, queue, executing⟩ := pool
          cases hqueue
          cases hexecuting
          rfl
        refine ⟨[], ?_⟩
        rw [hsame, setPool_of_getElem? hpool]
        exact .nil

/-! ## A step beside the pool of a pass -/

/-- A step of the tick is executing, and not in pool `p`. -/
def BusyBeside (s : Closing) (p : Option Nat) : Prop :=
  s.inline.isSome = true
    ∨ ∃ q pool, p ≠ some q ∧ s.pools[q]? = some pool ∧ pool.executing ≠ []

theorem BusyBeside.not_still (h : s.BusyBeside p) : ¬ s.Still := by
  intro hstill
  rcases h with h | ⟨q, pool, -, hpool, hexecuting⟩
  · rw [hstill.1] at h
    cases h
  · exact hexecuting (hstill.2 pool (List.mem_of_getElem? hpool))

theorem BusyBeside.setPool {q : Nat} {pool : Pool} (h : s.BusyBeside (some q)) :
    (s.setPool q pool).BusyBeside (some q) := by
  refine h.imp_right fun ⟨r, pool', hr, hpool', hexecuting⟩ => ⟨r, pool', hr, ?_, hexecuting⟩
  rw [Closing.setPool, List.getElem?_set_ne (fun heq => hr (congrArg some heq))]
  exact hpool'

theorem passes_setPass {phase phase' : PassPhase} (hk : s.passes[k]? = some phase) :
    (s.setPass k phase').passes[k]? = some phase' := by
  have hlt : k < s.passes.length := (List.getElem?_eq_some_iff.mp hk).1
  simp [setPass, hlt]

/-! ## How a pass goes on -/

theorem overtakes_of_closing (hbusy : s.BusyBeside p) (hdrivers : s.integrations ≠ [])
    (hk : s.passes[k]? = some (.closing s.integrations)) : Overtakes workers s k := by
  obtain ⟨driver, rest, hlist⟩ := List.exists_cons_of_ne_nil hdrivers
  rw [hlist] at hk
  exact ⟨[], s, s.setPass k (.closing rest), .nil, by simp [Next, step, hk], hbusy.not_still⟩

theorem overtakes_of_waiting (hworkers : 0 < workers) {q : Nat} (hlt : q < s.pools.length)
    (hbusy : s.BusyBeside (some q)) (hdrivers : s.integrations ≠ [])
    (hk : s.passes[k]? = some (.waiting q)) : Overtakes workers s k := by
  -- its own workers finish, the other step does not
  obtain ⟨es, hes⟩ := drain hworkers (List.getElem?_eq_getElem hlt)
  generalize hu : s.setPool q { s.pools[q] with queue := [], executing := [] } = u at hes
  have hbusy' : u.BusyBeside (some q) := hu ▸ hbusy.setPool
  have hku : u.passes[k]? = some (.waiting q) := hu ▸ hk
  have hwaited : Next workers u (.waited k) (u.setPass k (.closing u.integrations)) := by
    have hpool : u.pools[q]? = some { s.pools[q] with queue := [], executing := [] } := by
      simp [← hu, setPool, hlt]
    simp [Next, step, hku, hpool, Pool.idle]
  refine Overtakes.after hes (Overtakes.cons hwaited trivial ?_)
  exact overtakes_of_closing (s := u.setPass k _) hbusy' (hu ▸ hdrivers) (passes_setPass hku)

theorem overtakes_of_shutting (hworkers : 0 < workers) {q : Nat} (hlt : q < s.pools.length)
    (hbusy : s.BusyBeside (some q)) (hdrivers : s.integrations ≠ [])
    (hk : s.passes[k]? = some (.shutting q)) : Overtakes workers s k := by
  have hshut : Next workers s (.shut k)
      ((s.setPool q { s.pools[q] with closed := true }).setPass k (.waiting q)) := by
    simp [Next, step, hk, List.getElem?_eq_getElem hlt]
  refine Overtakes.cons hshut trivial ?_
  have hbusy' : (s.setPool q { s.pools[q] with closed := true }).BusyBeside (some q) :=
    hbusy.setPool
  exact overtakes_of_waiting (s := (s.setPool q _).setPass k _) hworkers
    (by simpa [setPool, setPass] using hlt) hbusy' hdrivers
    (passes_setPass (s := s.setPool q _) hk)

theorem overtakes_of_clearing (hworkers : 0 < workers)
    (hknown : ∀ q, p = some q → q < s.pools.length) (hbusy : s.BusyBeside p)
    (hdrivers : s.integrations ≠ []) (hk : s.passes[k]? = some (.clearing p)) :
    Overtakes workers s k := by
  cases p with
  | none =>
    have hclear : Next workers s (.clear k)
        { s.setPass k (.closing s.integrations) with current := none } := by
      simp [Next, step, hk]
    exact Overtakes.cons hclear trivial (overtakes_of_closing
      (s := { s.setPass k _ with current := none }) hbusy hdrivers (passes_setPass hk))
  | some q =>
    have hclear : Next workers s (.clear k)
        { s.setPass k (.shutting q) with current := none } := by
      simp [Next, step, hk]
    exact Overtakes.cons hclear trivial (overtakes_of_shutting
      (s := { s.setPass k _ with current := none }) hworkers (hknown q rfl) hbusy hdrivers
      (passes_setPass hk))

/-- How far a pass has come that waits for the workers of pool `p` at most. -/
def Awaits (s : Closing) (k : Nat) (p : Option Nat) : Prop :=
  s.passes[k]? = some (.clearing p) ∨ (∃ q, p = some q ∧ s.passes[k]? = some (.shutting q))
    ∨ s.passes[k]? = some (.closing s.integrations)

/-- It closes whatever is executing elsewhere. -/
theorem overtakes_of_busyBeside (hworkers : 0 < workers) (hawaits : s.Awaits k p)
    (hknown : ∀ q, p = some q → q < s.pools.length) (hdrivers : s.integrations ≠ [])
    (hbusy : s.BusyBeside p) : Overtakes workers s k := by
  rcases hawaits with hk | ⟨q, rfl, hk⟩ | hk
  · exact overtakes_of_clearing hworkers hknown hbusy hdrivers hk
  · exact overtakes_of_shutting hworkers (hknown q rfl) hbusy hdrivers hk
  · exact overtakes_of_closing hbusy hdrivers hk

/-! ## How the tick goes on -/

/-- The tick can go on, while the passes stand still, until a step is executing
beside pool `p`. -/
def MayBusy (workers : Nat) (s : Closing) (p : Option Nat) : Prop :=
  ∃ es u, OrderlyRuns workers s es u ∧ u.passes = s.passes ∧ u.integrations = s.integrations
    ∧ s.pools.length ≤ u.pools.length ∧ u.BusyBeside p

theorem MayBusy.cons (hnext : Next workers s e t) (horderly : s.Orderly e)
    (hpasses : t.passes = s.passes) (hdrivers : t.integrations = s.integrations)
    (hlength : s.pools.length ≤ t.pools.length) (h : MayBusy workers t p) :
    MayBusy workers s p := by
  obtain ⟨es, u, hrun, hp, hd, hl, hbusy⟩ := h
  exact ⟨e :: es, u, hrun.cons ⟨hnext, horderly⟩, hp.trans hpasses, hd.trans hdrivers,
    Nat.le_trans hlength hl, hbusy⟩

theorem MayBusy.of_busyBeside (h : s.BusyBeside p) : MayBusy workers s p :=
  ⟨[], s, .nil, rfl, rfl, Nat.le_refl _, h⟩

/-- A pool that has something to do comes to execute a step. -/
theorem mayBusy_of_pool (hworkers : 0 < workers) {q : Nat} {pool : Pool} (hq : p ≠ some q)
    (hpool : s.pools[q]? = some pool) (hidle : pool.idle = false) : MayBusy workers s p := by
  cases hexecuting : pool.executing with
  | cons i rest => exact .of_busyBeside (.inr ⟨q, pool, hq, hpool, by simp [hexecuting]⟩)
  | nil =>
    cases hqueue : pool.queue with
    | nil => simp [Pool.idle, hqueue, hexecuting] at hidle
    | cons i rest =>
      have hlt : q < s.pools.length := (List.getElem?_eq_some_iff.mp hpool).1
      have hpick : Next workers s (.pick q)
          (s.setPool q { pool with queue := rest, executing := [i] }) := by
        simp [Next, step, hpool, hqueue, hexecuting, hworkers]
      refine MayBusy.cons hpick trivial rfl rfl (by simp [setPool]) (.of_busyBeside (.inr ?_))
      exact ⟨q, _, hq, by simp [setPool, hlt]; rfl, by simp⟩

theorem mayBusy_of_inline (hfeed : s.feed = .inline) (hinline : s.inline = none)
    (hpending : s.pending ≠ []) : MayBusy workers s p := by
  obtain ⟨i, rest, hlist⟩ := List.exists_cons_of_ne_nil hpending
  have hrun : Next workers s .runInline { s with inline := some i, pending := rest } := by
    simp [Next, step, hfeed, hinline, hlist]
  exact MayBusy.cons hrun trivial rfl rfl (Nat.le_refl _) (.of_busyBeside (.inl rfl))

/-- Pool `q` takes tasks. -/
def Open (s : Closing) (q : Nat) : Prop := ∃ pool, s.pools[q]? = some pool ∧ pool.closed = false

theorem mayBusy_of_submitting (hworkers : 0 < workers) {q : Nat} (hq : p ≠ some q)
    (hfeed : s.feed = .submitting q) (hpending : s.pending ≠ []) (hopen : s.Open q) :
    MayBusy workers s p := by
  obtain ⟨i, rest, hlist⟩ := List.exists_cons_of_ne_nil hpending
  obtain ⟨pool, hpool, hclosed⟩ := hopen
  have hlt : q < s.pools.length := (List.getElem?_eq_some_iff.mp hpool).1
  have hsubmit : Next workers s .submit
      { s.setPool q { pool with queue := pool.queue ++ [i] } with
        pending := rest, feed := .looking } := by
    simp [Next, step, hfeed, hlist, hpool, hclosed]
  have hgiven : (s.setPool q { pool with queue := pool.queue ++ [i] }).pools[q]?
      = some { pool with queue := pool.queue ++ [i] } := by
    simp [setPool, hlt]
  exact MayBusy.cons hsubmit trivial rfl rfl (by simp [setPool])
    (mayBusy_of_pool hworkers hq hgiven (by simp [Pool.idle]))

theorem mayBusy_of_fetching (hworkers : 0 < workers) {q : Nat} (hq : p ≠ some q)
    (hfeed : s.feed = .fetching) (hpending : s.pending ≠ []) (hcurrent : s.current = some q)
    (hopen : s.Open q) : MayBusy workers s p := by
  have hfetch : Next workers s .fetch { s with feed := .submitting q } := by
    simp [Next, step, hfeed, hpending, hcurrent]
  exact MayBusy.cons hfetch trivial rfl rfl (Nat.le_refl _)
    (mayBusy_of_submitting hworkers hq rfl hpending hopen)

theorem mayBusy_of_looking (hworkers : 0 < workers) (hfeed : s.feed = .looking)
    (hpending : s.pending ≠ []) (hknown : ∀ q, p = some q → q < s.pools.length)
    (hcurrent : ∀ q, s.current = some q → p ≠ some q ∧ s.Open q) : MayBusy workers s p := by
  cases hc : s.current with
  | some q =>
    have hlook : Next workers s .look { s with feed := .fetching } := by
      simp [Next, step, hfeed, hpending, hc]
    exact MayBusy.cons hlook trivial rfl rfl (Nat.le_refl _)
      (mayBusy_of_fetching hworkers (hcurrent q hc).1 rfl hpending hc (hcurrent q hc).2)
  | none =>
    -- a pool of its own
    have hlook : Next workers s .look { s with
        pools := s.pools ++ [{}], current := some s.pools.length, feed := .fetching } := by
      simp [Next, step, hfeed, hpending, hc]
    have hne : p ≠ some s.pools.length := fun heq => Nat.lt_irrefl _ (hknown _ heq)
    exact MayBusy.cons hlook trivial rfl rfl (by simp)
      (mayBusy_of_fetching hworkers hne rfl hpending rfl ⟨{}, by simp, rfl⟩)

theorem MayBusy.overtakes (h : MayBusy workers s p) (hworkers : 0 < workers)
    (hawaits : s.Awaits k p) (hknown : ∀ q, p = some q → q < s.pools.length)
    (hdrivers : s.integrations ≠ []) : Overtakes workers s k := by
  obtain ⟨es, u, hrun, hpasses, hints, hlength, hbusy⟩ := h
  refine Overtakes.after hrun (overtakes_of_busyBeside hworkers ?_
    (fun q hq => Nat.lt_of_lt_of_le (hknown q hq) hlength) (hints ▸ hdrivers) hbusy)
  rwa [Awaits, hpasses, hints]

/-! ## The field and the pools -/

/-- `ThreadBackend._pool` takes tasks, and the tick submits to a pool. -/
structure Formed (s : Closing) : Prop where
  current : ∀ {q}, s.current = some q → s.Open q
  submitting : ∀ {q}, s.feed = .submitting q → q < s.pools.length

theorem Open.setPool {q r : Nat} {pool : Pool} (h : s.Open r)
    (hopen : q = r → pool.closed = false) : (s.setPool q pool).Open r := by
  obtain ⟨pool', hpool', hclosed⟩ := h
  by_cases hqr : q = r
  · have hlt : r < s.pools.length := (List.getElem?_eq_some_iff.mp hpool').1
    exact ⟨pool, by simp [Closing.setPool, hqr, hlt], hopen hqr⟩
  · exact ⟨pool', by simpa [Closing.setPool, List.getElem?_set_ne hqr] using hpool', hclosed⟩

theorem Open.lt {q : Nat} (h : s.Open q) : q < s.pools.length := by
  obtain ⟨pool, hpool, -⟩ := h
  exact (List.getElem?_eq_some_iff.mp hpool).1

/-- A step in the pool `q` does not close it. -/
theorem Formed.setPool {q : Nat} {pool pool' : Pool} (h : Formed s)
    (hpool : s.pools[q]? = some pool) (hclosed : pool'.closed = pool.closed) :
    Formed (s.setPool q pool') where
  current hr := by
    have hopen := h.current hr
    refine hopen.setPool fun heq => ?_
    obtain ⟨pool'', hpool'', hclosed''⟩ := hopen
    rw [← heq, hpool] at hpool''
    cases hpool''
    exact hclosed.trans hclosed''
  submitting hr := by simpa [Closing.setPool] using h.submitting hr

theorem Formed.works (h : Formed s) (hworks : s.Works workers t) : Formed t := by
  cases hworks with
  | runInline => exact ⟨h.current, h.submitting⟩
  | endInline => exact ⟨h.current, h.submitting⟩
  | aborts => exact ⟨h.current, h.submitting⟩
  | makes => exact ⟨fun hr => by cases hr; exact ⟨{}, by simp, rfl⟩, fun hr => nomatch hr⟩
  | finds => exact ⟨h.current, fun hr => nomatch hr⟩
  | fetches _ hcurrent => exact ⟨h.current, fun hr => by cases hr; exact (h.current hcurrent).lt⟩
  | @submits q i rest pool _ _ hpool =>
    have hformed : Formed (s.setPool q { pool with queue := pool.queue ++ [i] }) :=
      h.setPool hpool rfl
    exact ⟨hformed.current, fun hr => nomatch hr⟩
  | picks hpool => exact h.setPool hpool rfl
  | finishes hpool => exact h.setPool hpool rfl

/-- Only a pool that has been taken out of the field is shut down. -/
theorem Formed.passes (h : Formed s) (hguarded : Guarded s) (hpasses : s.Passes e t) :
    Formed t := by
  cases hpasses with
  | @shuts k q pool hk hpool =>
    have htaken : s.current ≠ some q := (hguarded.owed_of_getElem? hk).2.2
    exact ⟨fun {r} hr => (h.current hr).setPool fun heq => absurd (heq ▸ hr) htaken,
      fun hr => by simpa [setPass, Closing.setPool] using h.submitting hr⟩
  | clears | takes => exact ⟨(fun hr => by cases hr), h.submitting⟩
  | _ => exact ⟨h.current, h.submitting⟩

theorem formed_run {m : Nat} {pooled : Bool} {integrations : List String} {es : List ClosingEvent}
    (hrun : OrderlyRuns workers (start m pooled integrations) es s) : Guarded s ∧ Formed s := by
  refine Runs.invariant (I := fun s => Guarded s ∧ Formed s) (fun s e t h hnext => ?_) hrun
    ⟨.start m pooled integrations, ?_, ?_⟩
  · rcases next_cases hnext.1 with ⟨hworks, -⟩ | hpasses
    · exact ⟨h.1.works hworks, h.2.works hworks⟩
    · exact ⟨(h.1.passes hpasses hnext.2).2, h.2.passes h.1 hpasses⟩
  · intro q hq
    cases pooled with
    | false => cases hq
    | true => cases hq; exact ⟨{}, rfl, rfl⟩
  · intro q hq
    simp only [start] at hq
    split at hq <;> cases hq

/-! ## What breaks the condition -/

theorem not_covered_cases (h : ¬ s.Covered p) : s.inline.isSome = true
    ∨ (∃ q pool, p ≠ some q ∧ s.pools[q]? = some pool ∧ pool.idle = false)
    ∨ s.inline = none ∧ s.pending ≠ [] ∧ s.handed p = false := by
  cases hinline : s.inline with
  | some i => exact .inl rfl
  | none =>
    by_cases hidle : ∀ q, (h : q < s.pools.length) → p = some q ∨ s.pools[q].idle = true
    · have hhanded : s.handed p = false :=
        Bool.eq_false_iff.mpr fun hhanded => h ⟨hinline, hidle, hhanded⟩
      refine .inr (.inr ⟨rfl, fun hnil => ?_, hhanded⟩)
      rw [handed_of_pending_nil hnil] at hhanded
      cases hhanded
    · push Not at hidle
      obtain ⟨q, hlt, hq, hpool⟩ := hidle
      exact .inr (.inl ⟨q, s.pools[q], hq, List.getElem?_eq_getElem hlt,
        Bool.eq_false_iff.mpr hpool⟩)

/-- A pass whose wait is broken off while the tick has something left to do. -/
theorem overtakes_of_interrupt (hworkers : 0 < workers) (hformed : Formed s)
    (hdrivers : s.integrations ≠ []) (hk : s.passes[k]? = some (.closing s.integrations))
    (h : ¬ s.Covered none) : Overtakes workers s k := by
  have hawaits : s.Awaits k none := .inr (.inr hk)
  have hopen : ∀ q, s.current = some q → none ≠ some q ∧ s.Open q :=
    fun q hq => ⟨(fun heq => by cases heq), hformed.current hq⟩
  have hnone : ∀ q, (none : Option Nat) ≠ some q := fun q hq => by cases hq
  -- the pass waits for no pool any more, so any step will do
  suffices hbusy : MayBusy workers s none from
    hbusy.overtakes hworkers hawaits (fun q hq => absurd hq (hnone q)) hdrivers
  rcases not_covered_cases h with
    hinline | ⟨q, pool, hq, hpool, hidle⟩ | ⟨hinline, hpending, hhanded⟩
  · exact .of_busyBeside (.inl hinline)
  · exact mayBusy_of_pool hworkers hq hpool hidle
  · cases hfeed : s.feed with
    | inline => exact mayBusy_of_inline hfeed hinline hpending
    | looking =>
      exact mayBusy_of_looking hworkers hfeed hpending (fun q hq => absurd hq (hnone q)) hopen
    | fetching =>
      cases hcurrent : s.current with
      | none => simp [handed, hfeed, hcurrent] at hhanded
      | some q =>
        exact mayBusy_of_fetching hworkers (hnone _) hfeed hpending hcurrent (hopen q hcurrent).2
    | submitting q =>
      have hlt := hformed.submitting hfeed
      have hclosed : s.pools[q].closed = false := by
        simpa [handed, hfeed, hpending, isClosed, List.getElem?_eq_getElem hlt] using hhanded
      exact mayBusy_of_submitting hworkers (hnone _) hfeed hpending
        ⟨_, List.getElem?_eq_getElem hlt, hclosed⟩

/-- A tick that has still to look for its pool makes a new one, once the pass
has taken the old one. -/
theorem overtakes_of_looking (hworkers : 0 < workers) (hdrivers : s.integrations ≠ [])
    (hknown : ∀ q, p = some q → q < s.pools.length) (hk : s.passes[k]? = some (.clearing p))
    (hfeed : s.feed = .looking) (hpending : s.pending ≠ []) : Overtakes workers s k := by
  obtain ⟨u, hclear, hawaits, hu⟩ : ∃ u, Next workers s (.clear k) u ∧ u.Awaits k p
      ∧ u = { s with passes := u.passes, current := none } := by
    cases p with
    | none =>
      exact ⟨{ s.setPass k (.closing s.integrations) with current := none },
        by simp [Next, step, hk], .inr (.inr (passes_setPass hk)), rfl⟩
    | some q =>
      exact ⟨{ s.setPass k (.shutting q) with current := none },
        by simp [Next, step, hk], .inr (.inl ⟨q, rfl, passes_setPass hk⟩), rfl⟩
  refine Overtakes.cons hclear trivial ?_
  rw [hu] at hawaits ⊢
  have hbusy : MayBusy workers { s with passes := u.passes, current := none } p :=
    mayBusy_of_looking hworkers hfeed hpending hknown fun q hq => by cases hq
  exact hbusy.overtakes hworkers hawaits hknown hdrivers

theorem exists_two_pending (hpending : s.pending ≠ []) (hlength : s.pending.length ≠ 1) :
    ∃ i j rest, s.pending = i :: j :: rest := by
  cases hlist : s.pending with
  | nil => exact absurd hlist hpending
  | cons i tail =>
    cases tail with
    | nil => simp [hlist] at hlength
    | cons j rest => exact ⟨i, j, rest, rfl⟩

/-- One agent still goes to the pool that the pass takes, the next one does not. -/
theorem overtakes_of_submitting (hworkers : 0 < workers) (hdrivers : s.integrations ≠ [])
    {q : Nat} (hk : s.passes[k]? = some (.clearing (some q))) (hfeed : s.feed = .submitting q)
    (hopen : s.Open q) {i j : Nat} {rest : List Nat} (hpending : s.pending = i :: j :: rest) :
    Overtakes workers s k := by
  obtain ⟨pool, hpool, hclosed⟩ := hopen
  have hlt : q < s.pools.length := (List.getElem?_eq_some_iff.mp hpool).1
  have hsubmit : Next workers s .submit
      { s.setPool q { pool with queue := pool.queue ++ [i] } with
        pending := j :: rest, feed := .looking } := by
    simp [Next, step, hfeed, hpending, hpool, hclosed]
  refine Overtakes.cons hsubmit trivial
    (overtakes_of_looking hworkers hdrivers ?_ hk rfl (List.cons_ne_nil j rest))
  intro r hr
  cases hr
  simpa [setPool] using hlt

/-- A pass that takes the pool while the tick needs another one. -/
theorem overtakes_of_read (hworkers : 0 < workers) (hformed : Formed s)
    (hdrivers : s.integrations ≠ []) (hk : s.passes[k]? = some (.clearing s.current))
    (h : ¬ s.Covered s.current) : Overtakes workers s k := by
  have hawaits : s.Awaits k s.current := .inl hk
  have hknown : ∀ q, s.current = some q → q < s.pools.length :=
    fun q hq => (hformed.current hq).lt
  rcases not_covered_cases h with
    hinline | ⟨q, pool, hq, hpool, hidle⟩ | ⟨hinline, hpending, hhanded⟩
  · exact (MayBusy.of_busyBeside (.inl hinline)).overtakes hworkers hawaits hknown hdrivers
  · exact (mayBusy_of_pool hworkers hq hpool hidle).overtakes hworkers hawaits hknown hdrivers
  · cases hfeed : s.feed with
    | inline =>
      exact (mayBusy_of_inline hfeed hinline hpending).overtakes hworkers hawaits hknown hdrivers
    | looking => exact overtakes_of_looking hworkers hdrivers hknown hk hfeed hpending
    | fetching =>
      cases hcurrent : s.current with
      | none => simp [handed, hfeed, hcurrent] at hhanded
      | some q =>
        -- the pool was found before the pass takes it: the next agent needs another
        have hlength : s.pending.length ≠ 1 := by
          simpa [handed, hfeed, hcurrent, hpending] using hhanded
        obtain ⟨i, j, rest, hlist⟩ := exists_two_pending hpending hlength
        have hfetch : Next workers s .fetch { s with feed := .submitting q } := by
          simp [Next, step, hfeed, hpending, hcurrent]
        exact Overtakes.cons hfetch trivial (overtakes_of_submitting hworkers hdrivers
          (hcurrent ▸ hk) rfl (hformed.current hcurrent) hlist)
    | submitting q =>
      have hlt := hformed.submitting hfeed
      have hpool : s.pools[q]? = some s.pools[q] := List.getElem?_eq_getElem hlt
      simp only [handed, hfeed, isClosed, hpool, Option.any_some, Bool.or_eq_false_iff,
        List.isEmpty_eq_false_iff, Bool.and_eq_false_iff, beq_eq_false_iff_ne] at hhanded
      obtain ⟨-, hclosed, hother⟩ := hhanded
      by_cases hcurrent : s.current = some q
      · obtain ⟨i, j, rest, hlist⟩ :=
          exists_two_pending hpending (hother.resolve_left (not_not.mpr hcurrent))
        exact overtakes_of_submitting hworkers hdrivers (hcurrent ▸ hk) hfeed
          ⟨_, hpool, hclosed⟩ hlist
      · exact (mayBusy_of_submitting hworkers hcurrent hfeed hpending
          ⟨_, hpool, hclosed⟩).overtakes hworkers hawaits hknown hdrivers

/-! ## The condition is exact -/

/-- No orderly way to go on closes an integration while a step is executing. -/
def ClosesAfter (workers : Nat) (s : Closing) : Prop :=
  ∀ fs u f v, OrderlyRuns workers s fs u → Next workers u f v → u.Orderly f → u.AfterSteps f

theorem ClosesAfter.not_overtakes (h : ClosesAfter workers s) : ¬ Overtakes workers s k := by
  rintro ⟨fs, u, v, hrun, hclose, hstill⟩
  exact hstill (h fs u _ v hrun hclose trivial)

/-- **The condition is exact**: a next step keeps it exactly when no orderly way
to go on closes an integration while a step of the tick is executing. -/
theorem orderly_iff {m : Nat} {pooled : Bool} {integrations : List String}
    {es : List ClosingEvent} (hworkers : 0 < workers) (hdrivers : s.integrations ≠ [])
    (hrun : OrderlyRuns workers (start m pooled integrations) es s) (h : Next workers s e t) :
    s.Orderly e ↔ ClosesAfter workers t := by
  constructor
  · intro horderly fs u f v hfs hnext hf
    have hguarded := (formed_run ((hrun.snoc ⟨h, horderly⟩).append hfs)).1
    rcases next_cases hnext with ⟨-, hafter⟩ | hpasses
    · exact hafter
    · exact (hguarded.passes hpasses hf).1
  · intro hafter
    have hformed := (formed_run hrun).2
    -- only `read` and `interrupt` can break the condition
    cases e with
    | read k =>
      by_contra hcovered
      simp only [Next, step, Option.ite_none_right_eq_some] at h
      cases h.2
      exact hafter.not_overtakes (overtakes_of_read (s := s.setPass k _) hworkers
        ⟨hformed.current, hformed.submitting⟩ hdrivers (passes_setPass h.1) hcovered)
    | interrupt k =>
      by_contra hcovered
      simp only [Next, step] at h
      split at h
      · cases h
      · cases h
      · rename_i hk
        cases h
        exact hafter.not_overtakes (overtakes_of_interrupt (s := s.setPass k _) hworkers
          ⟨hformed.current, hformed.submitting⟩ hdrivers (passes_setPass hk) hcovered)
    | _ => trivial

end Closing

end TitoOS
