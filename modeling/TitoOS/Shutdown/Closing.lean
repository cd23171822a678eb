import TitoOS.Lib.Transition

/-!
# When the drivers are closed

`shutdown` promises that "integrations are always closed after the workers of
the backend have finished". A closing pass, made by a call with `wait=True` or by
the thread that a call with `wait=False` starts, is
`backend.shutdown(wait=True)`, which takes the pool out of `ThreadBackend._pool`
and waits for its workers, followed by `close` of every installed integration.

One tick hands out its agents meanwhile: to the pool, which `_executor` makes
when there is none, or, with fewer than two agents, to nobody: they run on the
caller's own thread. The pass waits for the workers of the pool it took, and for
nothing else. `closes_after_steps` says when that is enough, for any number of
agents, workers, integrations and passes.
-/

namespace TitoOS

/-- A `ThreadPoolExecutor`: its tasks are the agents whose steps it was given. -/
structure Pool where
  closed : Bool := false
  queue : List Nat := []
  executing : List Nat := []
  deriving DecidableEq, Repr

/-- No worker of the pool has anything left to do. -/
def Pool.idle (p : Pool) : Bool := p.queue.isEmpty && p.executing.isEmpty

/-- Where the thread of the tick is in `run_tick`. -/
inductive Feed
  /-- fewer than two agents: their steps run on this thread -/
  | inline
  /-- before the test of `_executor` -/
  | looking
  /-- after it, before `return self._pool` -/
  | fetching
  /-- before `submit` of pool `p` -/
  | submitting (p : Nat)
  deriving DecidableEq, Repr

/-- How far a closing pass has come. -/
inductive PassPhase
  /-- before `pool, self._pool = self._pool, None` -/
  | reading
  /-- the pool was read, the field not yet cleared -/
  | clearing (pool : Option Nat)
  /-- before `pool.shutdown(wait=True)` -/
  | shutting (p : Nat)
  /-- the pool takes no more tasks; its workers are waited for -/
  | waiting (p : Nat)
  /-- the integrations that are still to be closed -/
  | closing (integrations : List String)
  deriving DecidableEq, Repr

/-- A tick of a `ThreadBackend` and the closing passes next to it. -/
structure Closing where
  /-- the agents whose steps were not handed out yet -/
  pending : List Nat
  feed : Feed
  /-- the agent whose step runs on the thread of the tick -/
  inline : Option Nat := none
  /-- every pool that was made, in order -/
  pools : List Pool
  /-- `ThreadBackend._pool` -/
  current : Option Nat
  integrations : List String
  passes : List PassPhase := []
  deriving DecidableEq, Repr

inductive ClosingEvent
  /-- the step of the only agent starts, on the thread of the tick -/
  | runInline
  | endInline
  /-- `if self._pool is None: self._pool = ThreadPoolExecutor(...)` -/
  | look
  /-- `return self._pool` -/
  | fetch
  | submit
  /-- an exception ends the handing out -/
  | abort
  /-- a worker of pool `p` takes the oldest task -/
  | pick (p : Nat)
  /-- the step of agent `i` ends in pool `p` -/
  | finish (p i : Nat)
  /-- a closing pass begins -/
  | begin
  | read (k : Nat)
  | clear (k : Nat)
  | shut (k : Nat)
  /-- the workers have finished -/
  | waited (k : Nat)
  /-- `backend.shutdown` raises: `_close_resources(suppress_errors=True)` -/
  | interrupt (k : Nat)
  /-- the next `integration.close()` is called -/
  | close (k : Nat)
  deriving DecidableEq, Repr

namespace Closing

/-- `run_tick` with `m` agents, with or without a pool from an earlier tick. -/
def start (m : Nat) (pooled : Bool) (integrations : List String) : Closing where
  pending := List.range m
  feed := if m < 2 then .inline else .looking
  pools := if pooled then [{}] else []
  current := if pooled then some 0 else none
  integrations := integrations

def setPool (s : Closing) (p : Nat) (pool : Pool) : Closing :=
  { s with pools := s.pools.set p pool }

def setPass (s : Closing) (k : Nat) (phase : PassPhase) : Closing :=
  { s with passes := s.passes.set k phase }

/-- One atomic step, with at most `workers` threads to a pool; `none` when it
cannot be made. -/
def step (workers : Nat) (s : Closing) : ClosingEvent → Option Closing
  | .runInline =>
    match s.feed, s.inline, s.pending with
    | .inline, none, i :: rest => some { s with inline := some i, pending := rest }
    | _, _, _ => none
  | .endInline => if s.inline.isSome then some { s with inline := none } else none
  | .look =>
    if s.feed = .looking ∧ s.pending ≠ [] then
      match s.current with
      | none => some { s with
          pools := s.pools ++ [{}], current := some s.pools.length, feed := .fetching }
      | some _ => some { s with feed := .fetching }
    else none
  | .fetch =>
    if s.feed = .fetching ∧ s.pending ≠ [] then
      match s.current with
      -- `None.submit`: AttributeError
      | none => some { s with pending := [] }
      | some p => some { s with feed := .submitting p }
    else none
  | .submit =>
    match s.feed, s.pending with
    | .submitting p, i :: rest => do
      let pool ← s.pools[p]?
      -- "cannot schedule new futures after shutdown"
      if pool.closed then some { s with pending := [] }
      else some { s.setPool p { pool with queue := pool.queue ++ [i] } with
        pending := rest, feed := .looking }
    | _, _ => none
  | .abort => some { s with pending := [] }
  | .pick p => do
    let pool ← s.pools[p]?
    match pool.queue with
    | i :: rest =>
      if pool.executing.length < workers then
        some (s.setPool p { pool with queue := rest, executing := pool.executing ++ [i] })
      else none
    | [] => none
  | .finish p i => do
    let pool ← s.pools[p]?
    if i ∈ pool.executing then
      some (s.setPool p { pool with executing := pool.executing.erase i })
    else none
  | .begin => some { s with passes := s.passes ++ [.reading] }
  | .read k =>
    if s.passes[k]? = some .reading then some (s.setPass k (.clearing s.current)) else none
  | .clear k =>
    match s.passes[k]? with
    | some (.clearing none) => some { s.setPass k (.closing s.integrations) with current := none }
    | some (.clearing (some p)) => some { s.setPass k (.shutting p) with current := none }
    | _ => none
  | .shut k =>
    match s.passes[k]? with
    | some (.shutting p) => do
      let pool ← s.pools[p]?
      some ((s.setPool p { pool with closed := true }).setPass k (.waiting p))
    | _ => none
  | .waited k =>
    match s.passes[k]? with
    | some (.waiting p) => do
      let pool ← s.pools[p]?
      if pool.idle then some (s.setPass k (.closing s.integrations)) else none
    | _ => none
  | .interrupt k =>
    match s.passes[k]? with
    | none | some (.closing _) => none
    | some _ => some (s.setPass k (.closing s.integrations))
  | .close k =>
    match s.passes[k]? with
    | some (.closing (_ :: rest)) => some (s.setPass k (.closing rest))
    | _ => none

abbrev Next (workers : Nat) (s : Closing) (e : ClosingEvent) (t : Closing) : Prop :=
  s.step workers e = some t

/-- No step of the tick is executing. -/
def Still (s : Closing) : Prop := s.inline = none ∧ ∀ pool ∈ s.pools, pool.executing = []

/-- The event does not call `close` of an integration while a step is executing. -/
def AfterSteps (s : Closing) : ClosingEvent → Prop
  | .close _ => s.Still
  | _ => True

def isClosed (s : Closing) (p : Nat) : Bool := s.pools[p]?.any (·.closed)

/-- What the tick has still to hand out goes to pool `p`, or is refused. -/
def handed (s : Closing) (p : Option Nat) : Bool :=
  s.pending.isEmpty || match s.feed with
    | .inline | .looking => false
    | .fetching => s.current.isNone || (s.current == p && s.pending.length == 1)
    | .submitting q => s.isClosed q || (p == some q && s.pending.length == 1)

/-- Every step of the tick has ended or belongs to pool `p`. -/
def Covered (s : Closing) (p : Option Nat) : Prop :=
  s.inline = none ∧ (∀ q, (h : q < s.pools.length) → p = some q ∨ s.pools[q].idle = true)
    ∧ s.handed p = true

/-- A pass takes the pool only when it is the one the workers of the tick belong
to, and is not interrupted before the tick has ended. -/
def Orderly (s : Closing) : ClosingEvent → Prop
  | .read _ => s.Covered s.current
  | .interrupt _ => s.Covered none
  | _ => True

instance (s : Closing) (p : Option Nat) : Decidable (s.Covered p) :=
  inferInstanceAs (Decidable (_ ∧ _))

instance (s : Closing) : (e : ClosingEvent) → Decidable (s.Orderly e)
  | .read _ | .interrupt _ => inferInstanceAs (Decidable (Covered ..))
  | .runInline | .endInline | .look | .fetch | .submit | .abort | .pick _ | .finish .. | .begin
  | .clear _ | .shut _ | .waited _ | .close _ => isTrue trivial

/-! ## What a step can do -/

/-- The steps of the tick and of its workers. -/
inductive Works (workers : Nat) (s : Closing) : Closing → Prop
  | runInline {i : Nat} {rest : List Nat} (hfeed : s.feed = .inline) (hinline : s.inline = none)
      (hpending : s.pending = i :: rest) :
      Works workers s { s with inline := some i, pending := rest }
  | endInline : Works workers s { s with inline := none }
  | makes (hfeed : s.feed = .looking) (hpending : s.pending ≠ []) (hcurrent : s.current = none) :
      Works workers s { s with
        pools := s.pools ++ [{}], current := some s.pools.length, feed := .fetching }
  | finds (hfeed : s.feed = .looking) (hpending : s.pending ≠ []) :
      Works workers s { s with feed := .fetching }
  | fetches {p : Nat} (hfeed : s.feed = .fetching) (hcurrent : s.current = some p) :
      Works workers s { s with feed := .submitting p }
  | submits {p i : Nat} {rest : List Nat} {pool : Pool} (hfeed : s.feed = .submitting p)
      (hpending : s.pending = i :: rest) (hpool : s.pools[p]? = some pool)
      (hopen : pool.closed = false) :
      Works workers s { s.setPool p { pool with queue := pool.queue ++ [i] } with
        pending := rest, feed := .looking }
  | aborts : Works workers s { s with pending := [] }
  | picks {p i : Nat} {rest : List Nat} {pool : Pool} (hpool : s.pools[p]? = some pool)
      (hqueue : pool.queue = i :: rest) (hworkers : pool.executing.length < workers) :
      Works workers s
        (s.setPool p { pool with queue := rest, executing := pool.executing ++ [i] })
  | finishes {p i : Nat} {pool : Pool} (hpool : s.pools[p]? = some pool)
      (hmem : i ∈ pool.executing) :
      Works workers s (s.setPool p { pool with executing := pool.executing.erase i })

/-- The steps of the closing passes. -/
inductive Passes (s : Closing) : ClosingEvent → Closing → Prop
  | begins : Passes s .begin { s with passes := s.passes ++ [.reading] }
  | reads {k : Nat} (hk : s.passes[k]? = some .reading) :
      Passes s (.read k) (s.setPass k (.clearing s.current))
  | clears {k : Nat} (hk : s.passes[k]? = some (.clearing none)) :
      Passes s (.clear k) { s.setPass k (.closing s.integrations) with current := none }
  | takes {k p : Nat} (hk : s.passes[k]? = some (.clearing (some p))) :
      Passes s (.clear k) { s.setPass k (.shutting p) with current := none }
  | shuts {k p : Nat} {pool : Pool} (hk : s.passes[k]? = some (.shutting p))
      (hpool : s.pools[p]? = some pool) :
      Passes s (.shut k) ((s.setPool p { pool with closed := true }).setPass k (.waiting p))
  | waits {k p : Nat} {pool : Pool} (hk : s.passes[k]? = some (.waiting p))
      (hpool : s.pools[p]? = some pool) (hidle : pool.idle = true) :
      Passes s (.waited k) (s.setPass k (.closing s.integrations))
  | interrupted {k : Nat} :
      Passes s (.interrupt k) (s.setPass k (.closing s.integrations))
  | closes {k : Nat} {driver : String} {rest : List String}
      (hk : s.passes[k]? = some (.closing (driver :: rest))) :
      Passes s (.close k) (s.setPass k (.closing rest))

variable {workers : Nat} {s t : Closing} {e : ClosingEvent}

theorem works_of_look (h : Next workers s .look t) : s.Works workers t := by
  simp only [Next, step, Option.ite_none_right_eq_some] at h
  obtain ⟨⟨hfeed, hpending⟩, h⟩ := h
  split at h
  · cases h; exact .makes hfeed hpending ‹_›
  · cases h; exact .finds hfeed hpending

theorem works_of_fetch (h : Next workers s .fetch t) : s.Works workers t := by
  simp only [Next, step, Option.ite_none_right_eq_some] at h
  obtain ⟨⟨hfeed, -⟩, h⟩ := h
  split at h
  · cases h; exact .aborts
  · cases h; exact .fetches hfeed ‹_›

theorem works_of_submit (h : Next workers s .submit t) : s.Works workers t := by
  simp only [Next, step] at h
  split at h
  · obtain ⟨pool, hpool, h⟩ := Option.bind_eq_some_iff.mp h
    by_cases hclosed : pool.closed = true
    · rw [if_pos hclosed] at h
      cases h
      exact .aborts
    · rw [if_neg hclosed] at h
      cases h
      exact .submits ‹_› ‹_› hpool (Bool.eq_false_iff.mpr hclosed)
  · cases h

theorem works_of_pick {p : Nat} (h : Next workers s (.pick p) t) : s.Works workers t := by
  obtain ⟨pool, hpool, h⟩ := Option.bind_eq_some_iff.mp h
  cases hqueue : pool.queue with
  | nil => simp only [hqueue] at h; cases h
  | cons i rest =>
    simp only [hqueue, Option.ite_none_right_eq_some] at h
    cases h.2
    exact .picks hpool hqueue h.1

theorem works_of_finish {p i : Nat} (h : Next workers s (.finish p i) t) : s.Works workers t := by
  obtain ⟨pool, hpool, h⟩ := Option.bind_eq_some_iff.mp h
  simp only [Option.ite_none_right_eq_some] at h
  cases h.2
  exact .finishes hpool h.1

theorem passes_of_clear {k : Nat} (h : Next workers s (.clear k) t) : s.Passes (.clear k) t := by
  simp only [Next, step] at h
  split at h
  · cases h; exact .clears ‹_›
  · cases h; exact .takes ‹_›
  · cases h

theorem passes_of_shut {k : Nat} (h : Next workers s (.shut k) t) : s.Passes (.shut k) t := by
  simp only [Next, step] at h
  split at h
  · obtain ⟨pool, hpool, h⟩ := Option.bind_eq_some_iff.mp h
    cases h
    exact .shuts ‹_› hpool
  · cases h

theorem passes_of_waited {k : Nat} (h : Next workers s (.waited k) t) :
    s.Passes (.waited k) t := by
  simp only [Next, step] at h
  split at h
  · obtain ⟨pool, hpool, h⟩ := Option.bind_eq_some_iff.mp h
    simp only [Option.ite_none_right_eq_some] at h
    cases h.2
    exact .waits ‹_› hpool h.1
  · cases h

theorem next_cases (h : Next workers s e t) :
    (s.Works workers t ∧ s.AfterSteps e) ∨ s.Passes e t := by
  cases e with
  | runInline =>
    simp only [Next, step] at h
    split at h
    · cases h; exact .inl ⟨.runInline ‹_› ‹_› ‹_›, trivial⟩
    · cases h
  | endInline =>
    simp only [Next, step, Option.ite_none_right_eq_some] at h
    cases h.2
    exact .inl ⟨.endInline, trivial⟩
  | look => exact .inl ⟨works_of_look h, trivial⟩
  | fetch => exact .inl ⟨works_of_fetch h, trivial⟩
  | submit => exact .inl ⟨works_of_submit h, trivial⟩
  | abort => cases h; exact .inl ⟨.aborts, trivial⟩
  | pick p => exact .inl ⟨works_of_pick h, trivial⟩
  | finish p i => exact .inl ⟨works_of_finish h, trivial⟩
  | begin => cases h; exact .inr .begins
  | read k =>
    simp only [Next, step, Option.ite_none_right_eq_some] at h
    cases h.2
    exact .inr (.reads h.1)
  | clear k => exact .inr (passes_of_clear h)
  | shut k => exact .inr (passes_of_shut h)
  | waited k => exact .inr (passes_of_waited h)
  | interrupt k =>
    simp only [Next, step] at h
    split at h
    · cases h
    · cases h
    · cases h; exact .inr .interrupted
  | close k =>
    simp only [Next, step] at h
    split at h
    · cases h; exact .inr (.closes ‹_›)
    · cases h

/-! ## What stays covered -/

theorem isClosed_setPool {p q : Nat} {pool pool' : Pool} (hpool : s.pools[p]? = some pool)
    (hclosed : pool.closed = true → pool'.closed = true) (h : s.isClosed q = true) :
    (s.setPool p pool').isClosed q = true := by
  by_cases hpq : p = q
  · subst hpq
    have hclosed' := hclosed (by simpa [isClosed, hpool] using h)
    simp [isClosed, setPool, List.getElem?_set_self', hpool, hclosed']
  · simpa [isClosed, setPool, List.getElem?_set_ne hpq] using h

theorem handed_of_pending_nil {p : Option Nat} (h : s.pending = []) : s.handed p = true := by
  simp [handed, h]

/-- Pools that close do not let more tasks in. -/
theorem handed_mono {p : Option Nat} (hpending : t.pending = s.pending) (hfeed : t.feed = s.feed)
    (hcurrent : t.current = s.current ∨ t.current = none)
    (hclosed : ∀ q, s.isClosed q = true → t.isClosed q = true) (h : s.handed p = true) :
    t.handed p = true := by
  simp only [handed, hpending, hfeed, Bool.or_eq_true] at h ⊢
  refine h.imp_right fun h => ?_
  cases hf : s.feed with
  | inline => simp [hf] at h
  | looking => simp [hf] at h
  | fetching =>
    rcases hcurrent with hcurrent | hcurrent
    · simpa [hf, hcurrent] using h
    · simp [hcurrent]
  | submitting q =>
    simp only [hf, Bool.or_eq_true] at h ⊢
    exact h.imp_left (hclosed q)

/-- What a step of one pool leaves covered. -/
theorem Covered.setPool {p : Option Nat} {q : Nat} {pool pool' : Pool} (h : s.Covered p)
    (hpool : s.pools[q]? = some pool) (hidle : p = some q ∨ pool'.idle = true)
    (hclosed : pool.closed = true → pool'.closed = true) : (s.setPool q pool').Covered p := by
  refine ⟨h.1, fun r hr => ?_, handed_mono (s := s) rfl rfl (.inl rfl)
    (fun r => isClosed_setPool hpool hclosed) h.2.2⟩
  by_cases hqr : q = r
  · subst hqr
    simpa [Closing.setPool] using hidle
  · have hlt : r < s.pools.length := by simpa [Closing.setPool] using hr
    simpa [Closing.setPool, List.getElem_set_ne hqr] using h.2.1 r hlt

/-- A pool with something to do is the one that covers the tick. -/
theorem Covered.eq_of_not_idle {p : Option Nat} {q : Nat} {pool : Pool} (h : s.Covered p)
    (hpool : s.pools[q]? = some pool) (hidle : pool.idle = false) : p = some q := by
  obtain ⟨hlt, rfl⟩ := List.getElem?_eq_some_iff.mp hpool
  exact (h.2.1 q hlt).resolve_right (by simp [hidle])

theorem Covered.still (h : s.Covered none) : s.Still := by
  refine ⟨h.1, fun pool hpool => ?_⟩
  obtain ⟨q, hq, rfl⟩ := List.mem_iff_getElem.mp hpool
  have hidle := (h.2.1 q hq).resolve_left (by simp)
  rw [Pool.idle, Bool.and_eq_true, List.isEmpty_iff, List.isEmpty_iff] at hidle
  exact hidle.2

/-- What one step preserves of the pools a pass may have taken. -/
structure Onward (s t : Closing) : Prop where
  covered : ∀ {p}, s.Covered p → t.Covered p
  length : s.pools.length ≤ t.pools.length
  current : ∀ {p}, p < s.pools.length → s.current ≠ some p → t.current ≠ some p
  closed : ∀ {p}, s.isClosed p = true → t.isClosed p = true

/-- A tick that has still to look for its pool is covered by none. -/
theorem not_covered (hfeed : s.feed = .inline ∨ s.feed = .looking) (hpending : s.pending ≠ [])
    {p : Option Nat} : ¬ s.Covered p := by
  intro h
  have hhanded := h.2.2
  rcases hfeed with hfeed | hfeed
  · simp [handed, hfeed, hpending] at hhanded
  · simp [handed, hfeed, hpending] at hhanded

theorem onward_setPool {q : Nat} {pool pool' : Pool} (hpool : s.pools[q]? = some pool)
    (hidle : ∀ p, s.Covered p → p = some q ∨ pool'.idle = true)
    (hclosed : pool.closed = true → pool'.closed = true) : Onward s (s.setPool q pool') where
  covered h := h.setPool hpool (hidle _ h) hclosed
  length := by simp [setPool]
  current _ h := h
  closed := isClosed_setPool hpool hclosed

theorem Works.onward (h : s.Works workers t) : Onward s t := by
  cases h with
  | runInline hfeed _ hpending =>
    exact ⟨fun h => absurd h (not_covered (.inl hfeed) (by simp [hpending])), Nat.le_refl _,
      fun _ h => h, fun h => h⟩
  | endInline => exact ⟨fun h => ⟨rfl, h.2.1, h.2.2⟩, Nat.le_refl _, fun _ h => h, fun h => h⟩
  | makes hfeed hpending =>
    refine ⟨fun h => absurd h (not_covered (.inr hfeed) hpending), by simp, fun hp _ heq => ?_,
      fun h => ?_⟩
    · cases heq
      exact Nat.lt_irrefl _ hp
    · rw [isClosed, List.getElem?_append_left]
      · exact h
      · by_contra hge
        simp [isClosed, List.getElem?_eq_none (Nat.le_of_not_lt hge)] at h
  | finds hfeed hpending =>
    exact ⟨fun h => absurd h (not_covered (.inr hfeed) hpending), Nat.le_refl _, fun _ h => h,
      fun h => h⟩
  | @fetches q hfeed hcurrent =>
    refine ⟨fun {p} h => ⟨h.1, h.2.1, ?_⟩, Nat.le_refl _, fun _ h => h, fun h => h⟩
    have hhanded := h.2.2
    simp only [handed, hfeed, hcurrent, Option.isNone_some, Bool.false_or, Bool.or_eq_true,
      Bool.and_eq_true, beq_iff_eq] at hhanded ⊢
    refine hhanded.imp_right fun h => .inr ⟨h.1.symm, h.2⟩
  | @submits q i rest pool hfeed hpending hpool hopen =>
    -- what covers the tick takes its last agent, into the pool it names
    have hlast : ∀ p, s.Covered p → p = some q ∧ rest = [] := by
      intro p h
      have hhanded := h.2.2
      simpa [handed, hfeed, hpending, isClosed, hpool, hopen] using hhanded
    have honward : Onward s (s.setPool q { pool with queue := pool.queue ++ [i] }) :=
      onward_setPool hpool (fun p h => .inl (hlast p h).1) fun h => h
    exact ⟨fun h => ⟨(honward.covered h).1, (honward.covered h).2.1,
      handed_of_pending_nil (hlast _ h).2⟩, honward.length, honward.current, honward.closed⟩
  | aborts =>
    exact ⟨fun h => ⟨h.1, h.2.1, handed_of_pending_nil rfl⟩, Nat.le_refl _, fun _ h => h,
      fun h => h⟩
  | picks hpool hqueue =>
    refine onward_setPool hpool (fun p h => .inl (h.eq_of_not_idle hpool ?_)) fun h => h
    simp [Pool.idle, hqueue]
  | finishes hpool hmem =>
    refine onward_setPool hpool (fun p h => .inl (h.eq_of_not_idle hpool ?_)) fun h => h
    simp [Pool.idle, List.ne_nil_of_mem hmem]

/-- The passes do not take up the work of the tick. -/
theorem Passes.onward (h : s.Passes e t) : Onward s t := by
  have hpasses : ∀ passes, Onward s { s with passes } := fun _ =>
    ⟨fun h => h, Nat.le_refl _, fun _ h => h, fun h => h⟩
  have hcurrent : ∀ passes, Onward s { s with passes, current := none } := fun _ =>
    ⟨fun h => ⟨h.1, h.2.1, handed_mono (s := s) rfl rfl (.inr rfl) (fun _ h => h) h.2.2⟩,
      Nat.le_refl _, fun _ _ => by simp, fun h => h⟩
  cases h with
  | begins => exact hpasses _
  | reads => exact hpasses _
  | clears => exact hcurrent _
  | takes => exact hcurrent _
  | @shuts k p pool _ hpool =>
    have honward : Onward s (s.setPool p { pool with closed := true }) := by
      refine onward_setPool hpool (fun q h => ?_) fun _ => rfl
      obtain ⟨hlt, rfl⟩ := List.getElem?_eq_some_iff.mp hpool
      exact h.2.1 p hlt
    exact ⟨honward.covered, honward.length, honward.current, honward.closed⟩
  | waits => exact hpasses _
  | interrupted => exact hpasses _
  | closes => exact hpasses _

/-! ## The invariant of orderly runs -/

/-- What a pass may rely on. -/
def Owed (s : Closing) : PassPhase → Prop
  | .reading => True
  | .clearing p => s.Covered p ∧ ∀ q, p = some q → q < s.pools.length
  | .shutting p => s.Covered (some p) ∧ p < s.pools.length ∧ s.current ≠ some p
  | .waiting p => s.Covered (some p) ∧ p < s.pools.length ∧ s.current ≠ some p
      ∧ s.isClosed p = true
  | .closing _ => s.Covered none

theorem Owed.onward {phase : PassPhase} (h : s.Owed phase) (honward : Onward s t) :
    t.Owed phase := by
  cases phase with
  | reading => trivial
  | clearing p =>
    exact ⟨honward.covered h.1, fun q hq => Nat.lt_of_lt_of_le (h.2 q hq) honward.length⟩
  | shutting p =>
    exact ⟨honward.covered h.1, Nat.lt_of_lt_of_le h.2.1 honward.length,
      honward.current h.2.1 h.2.2⟩
  | waiting p =>
    exact ⟨honward.covered h.1, Nat.lt_of_lt_of_le h.2.1 honward.length,
      honward.current h.2.1 h.2.2.1, honward.closed h.2.2.2⟩
  | closing => exact honward.covered h

/-- A pool whose workers have finished, and that takes no more tasks, covers
nothing any more. -/
theorem Owed.finished {p : Nat} {pool : Pool} (h : s.Owed (.waiting p))
    (hpool : s.pools[p]? = some pool) (hidle : pool.idle = true) : s.Covered none := by
  obtain ⟨⟨hinline, hidles, hhanded⟩, -, hcurrent, hclosed⟩ := h
  refine ⟨hinline, fun q hq => .inr ?_, ?_⟩
  · rcases hidles q hq with heq | hq'
    · obtain rfl := Option.some.inj heq
      obtain ⟨_, rfl⟩ := List.getElem?_eq_some_iff.mp hpool
      exact hidle
    · exact hq'
  · simp only [handed, Bool.or_eq_true] at hhanded ⊢
    refine hhanded.imp_right fun h => ?_
    -- what is left will be refused: the field is clear, and the pool shut down
    cases hfeed : s.feed with
    | inline => simp [hfeed] at h
    | looking => simp [hfeed] at h
    | fetching =>
      have hnone : s.current = none := by simpa [hfeed, hcurrent] using h
      simp [hnone]
    | submitting q =>
      simp only [hfeed, Bool.or_eq_true, Bool.and_eq_true, beq_iff_eq] at h ⊢
      rcases h with h | ⟨heq, -⟩
      · exact .inl h
      · cases heq; exact .inl hclosed

/-- Every pass gets what it relies on. -/
structure Guarded (s : Closing) : Prop where
  known : ∀ {p}, s.current = some p → p < s.pools.length
  owed : ∀ phase ∈ s.passes, s.Owed phase

namespace Guarded

theorem start (m : Nat) (pooled : Bool) (integrations : List String) :
    Guarded (start m pooled integrations) where
  known h := by
    cases pooled with
    | false => cases h
    | true => cases h; exact Nat.one_pos
  owed _ h := by cases h

theorem works (h : Guarded s) (hworks : s.Works workers t) : Guarded t := by
  have hpasses : t.passes = s.passes := by cases hworks <;> rfl
  refine ⟨fun {p} hp => ?_, fun phase hphase =>
    (h.owed phase (hpasses ▸ hphase)).onward hworks.onward⟩
  cases hworks with
  | makes =>
    cases hp
    simp
  | _ => exact Nat.lt_of_lt_of_le (h.known hp) (by simp [setPool])

/-- One pass moves on. -/
theorem pass (h : Guarded s) (honward : Onward s t) {k : Nat} {phase : PassPhase}
    (hpasses : t.passes = s.passes.set k phase) (hknown : t.current = s.current ∨ t.current = none)
    (howed : t.Owed phase) : Guarded t := by
  refine ⟨fun {p} hp => ?_, fun phase' hphase => ?_⟩
  · rcases hknown with hknown | hknown
    · exact Nat.lt_of_lt_of_le (h.known (hknown ▸ hp)) honward.length
    · rw [hknown] at hp
      cases hp
  · rw [hpasses] at hphase
    rcases List.mem_or_eq_of_mem_set hphase with hphase | rfl
    · exact (h.owed phase' hphase).onward honward
    · exact howed

theorem owed_of_getElem? (h : Guarded s) {k : Nat} {phase : PassPhase}
    (hk : s.passes[k]? = some phase) : s.Owed phase :=
  h.owed phase (List.mem_of_getElem? hk)

theorem passes (h : Guarded s) (hpasses : s.Passes e t) (horderly : s.Orderly e) :
    s.AfterSteps e ∧ Guarded t := by
  have honward := hpasses.onward
  cases hpasses with
  | begins =>
    refine ⟨trivial, h.known, fun phase hphase => ?_⟩
    rcases List.mem_append.mp hphase with hphase | hphase
    · exact (h.owed phase hphase).onward honward
    · rw [List.mem_singleton.mp hphase]
      trivial
  | reads hk =>
    -- the condition is what the pass relies on from here
    exact ⟨trivial, h.pass honward rfl (.inl rfl) ⟨horderly, fun _ => h.known⟩⟩
  | clears hk =>
    exact ⟨trivial, h.pass honward rfl (.inr rfl) (honward.covered (h.owed_of_getElem? hk).1)⟩
  | takes hk =>
    have howed := h.owed_of_getElem? hk
    exact ⟨trivial, h.pass honward rfl (.inr rfl)
      ⟨honward.covered howed.1, howed.2 _ rfl, by simp⟩⟩
  | @shuts k p pool hk hpool =>
    have howed := h.owed_of_getElem? hk
    refine ⟨trivial, h.pass honward rfl (.inl rfl) ⟨honward.covered howed.1,
      Nat.lt_of_lt_of_le howed.2.1 honward.length, howed.2.2, ?_⟩⟩
    simp [isClosed, setPass, setPool, List.getElem?_set_self', hpool]
  | waits hk hpool hidle =>
    exact ⟨trivial, h.pass honward rfl (.inl rfl) ((h.owed_of_getElem? hk).finished hpool hidle)⟩
  | interrupted => exact ⟨trivial, h.pass honward rfl (.inl rfl) horderly⟩
  | closes hk =>
    have howed := h.owed_of_getElem? hk
    exact ⟨Covered.still howed, h.pass honward rfl (.inl rfl) howed⟩

end Guarded

/-! ## Orderly runs close after the steps -/

variable {m : Nat} {pooled : Bool} {integrations : List String} {es : List ClosingEvent}

theorem orderly_run
    (h : Runs (Runs.Restricted (Next workers) Orderly) (start m pooled integrations) es s) :
    Runs (Runs.Restricted (Next workers) AfterSteps) (start m pooled integrations) es s
      ∧ Guarded s :=
  Runs.restricted (fun s _ _ hguarded hnext horderly => by
    rcases next_cases hnext with ⟨hworks, hafter⟩ | hpasses
    · exact ⟨hafter, hguarded.works hworks⟩
    · exact hguarded.passes hpasses horderly) h (.start m pooled integrations)

/-- **Drivers are closed after the steps that use them**: in a run whose passes
take the pool in order, no integration is closed while a step is executing. -/
theorem closes_after_steps
    (h : Runs (Runs.Restricted (Next workers) Orderly) (start m pooled integrations) es s) :
    Runs (Runs.Restricted (Next workers) AfterSteps) (start m pooled integrations) es s :=
  (orderly_run h).1

/-- Two agents in the pool of the tick, closed by two passes. -/
def orderlyTick : List ClosingEvent :=
  [.look, .fetch, .submit, .look, .fetch, .pick 0, .begin, .read 0, .submit, .clear 0, .pick 0,
    .shut 0, .finish 0 1, .finish 0 0, .waited 0, .begin, .close 0, .read 1, .clear 1, .close 1,
    .close 0]

theorem orderlyTick_run : (orderlyTick.foldlM (fun s e =>
    if Orderly s e then s.step 2 e else none) (start 2 false ["http", "files"])).isSome = true := by
  decide

theorem closes_after_steps_orderlyTick : Runs (Runs.Restricted (Next 2) AfterSteps)
    (start 2 false ["http", "files"]) orderlyTick
    ((orderlyTick.foldlM (fun s e => if Orderly s e then s.step 2 e else none)
      (start 2 false ["http", "files"])).get orderlyTick_run) :=
  closes_after_steps (Runs.restricted_of_foldlM (Option.some_get orderlyTick_run).symm)

/-- A single agent runs on the thread of the tick, for which no pass waits. -/
def inlineTick : List ClosingEvent := [.runInline, .begin, .read 0, .clear 0]

theorem inlineTick_run : inlineTick.foldlM (step 2) (start 1 false ["http"]) = some {
    pending := []
    feed := .inline
    inline := some 0
    pools := []
    current := none
    integrations := ["http"]
    passes := [.closing ["http"]] } := by decide

theorem closes_during_step : ¬ ∀ (workers m : Nat) (pooled : Bool) (integrations : List String)
    (es : List ClosingEvent) (s : Closing),
    Runs (Next workers) (start m pooled integrations) es s →
      Runs (Runs.Restricted (Next workers) AfterSteps) (start m pooled integrations) es s := by
  intro h
  have hclose : Runs (Next 2) (start 1 false ["http"]) (inlineTick ++ [.close 0]) _ :=
    (Runs.iff_foldlM.mpr inlineTick_run).snoc rfl
  obtain ⟨t, hrun, hlast⟩ := (h _ _ _ _ _ _ hclose).last
  have ht := Runs.iff_foldlM.mp hrun.of_restricted
  rw [inlineTick_run] at ht
  cases ht
  cases hlast.2.1

end Closing

end TitoOS
