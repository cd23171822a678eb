import TitoOS.Lib.Transition
import Mathlib.Logic.Function.Basic

/-!
# Starting and stopping the server

`start`, `serve_forever` and `stop` of `KernelGUI`, called by any number of
threads. A block under `_lifecycle_lock` only reads and writes fields, so it is
one step; `_stop_lock` is held across `shutdown`, `join` and `server_close`.
`BaseServer` of the standard library is modelled as documented: `serve_forever`
polls until `shutdown` was requested, and `shutdown` waits for an event that the
end of the loop sets.
-/

namespace TitoOS

/-- A thread: one that the program made, or one that `start` made. -/
inductive Thread
  | caller (i : Nat)
  | gui (k : Nat)
  deriving DecidableEq, Repr

/-- The three calls. -/
inductive ServerCall
  | start
  | serveForever
  | stop
  deriving DecidableEq, Repr

/-- Where a thread is in its call. -/
inductive ServePhase
  /-- in no call -/
  | idle
  /-- the thread has ended, or was not made yet -/
  | ended
  /-- `start`, before its block -/
  | starting
  /-- `serve_forever`, before its first block -/
  | entering
  /-- before `__is_shut_down.clear()` -/
  | opening
  /-- in the loop -/
  | polling
  /-- the loop has been left; before `__shutdown_request = False` -/
  | resetting
  /-- before `__is_shut_down.set()` -/
  | signalling
  /-- before the block of the `finally` -/
  | leaving
  /-- `stop`, before `with self._stop_lock` -/
  | stopping
  /-- before the first block of `stop` -/
  | reading
  /-- before `__shutdown_request = True`; the thread that is to be joined -/
  | requesting (target : Option Thread)
  /-- before `__is_shut_down.wait()` returns -/
  | awaiting (target : Option Thread)
  /-- before `join` returns -/
  | joining (target : Thread)
  /-- before `server_close` -/
  | closing
  /-- before the last block -/
  | forgetting
  /-- before `_stop_lock` is released -/
  | releasing
  deriving DecidableEq, Repr

namespace ServePhase

/-- Between the two blocks of `serve_forever`. -/
def serves : ServePhase → Bool
  | opening | polling | resetting | signalling | leaving => true
  | _ => false

/-- In `stop`, with `_stop_lock`. -/
def holds : ServePhase → Bool
  | reading | requesting _ | awaiting _ | joining _ | closing | forgetting | releasing => true
  | _ => false

/-- In `stop`. -/
def stops (p : ServePhase) : Bool := p = stopping || p.holds

/-- The thread that a call of `stop` is going to join. -/
def target? : ServePhase → Option Thread
  | requesting target | awaiting target => target
  | joining target => some target
  | _ => none

/-- Past the first block of `stop`. -/
def hasRead (p : ServePhase) : Bool := p.holds && p ≠ reading

/-- Before the next test of the request. -/
def looks : ServePhase → Bool
  | opening | polling => true
  | _ => false

/-- Before the `wait` of `shutdown` returns. -/
def asks : ServePhase → Bool
  | requesting _ | awaiting _ => true
  | _ => false

/-- Past the request of `stop`. -/
def hasRequested : ServePhase → Bool
  | awaiting _ | joining _ | closing | forgetting | releasing => true
  | _ => false

theorem serves_of_looks {p : ServePhase} (h : p.looks = true) : p.serves = true := by
  cases p <;> simp_all [looks, serves]

theorem holds_of_hasRead {p : ServePhase} (h : p.hasRead = true) : p.holds = true := by
  simp only [hasRead, Bool.and_eq_true] at h
  exact h.1

theorem hasRead_of_hasRequested {p : ServePhase} (h : p.hasRequested = true) :
    p.hasRead = true := by
  cases p <;> simp_all [hasRequested, hasRead, holds]

/-- Nobody serves and stops at a time. -/
theorem serves_of_holds {p : ServePhase} (h : p.holds = true) : p.serves = false := by
  cases p <;> simp_all [serves, holds]

theorem holds_of_serves {p : ServePhase} (h : p.serves = true) : p.holds = false := by
  cases p <;> simp_all [serves, holds]

theorem hasRead_of_target? {p : ServePhase} {t : Thread} (h : p.target? = some t) :
    p.hasRead = true := by
  cases p <;> simp_all [target?, hasRead, holds]

end ServePhase

/-- The fields of a `KernelGUI` and of its server. -/
structure ServerFields where
  /-- `_stopped` -/
  stopped : Bool := false
  /-- `_serving` -/
  serving : Bool := false
  /-- `_serve_thread` -/
  serveThread : Option Thread := none
  /-- `_thread` -/
  thread : Option Thread := none
  /-- the thread that holds `_stop_lock` -/
  stopLock : Option Thread := none
  /-- `BaseServer.__shutdown_request` -/
  shutdownRequest : Bool := false
  /-- `BaseServer.__is_shut_down` -/
  isShutDown : Bool := false
  /-- `server_close` was called -/
  closed : Bool := false
  /-- how many threads `start` has made -/
  made : Nat := 0
  deriving DecidableEq, Repr

/-- A `KernelGUI` and the threads that call it. -/
structure Lifecycle extends ServerFields where
  phase : Thread → ServePhase

namespace Lifecycle

/-- A new `KernelGUI`; every thread of the program may call it. -/
def fresh : Lifecycle where
  phase
    | .caller _ => .idle
    | .gui _ => .ended

def setPhase (s : Lifecycle) (t : Thread) (p : ServePhase) : Lifecycle :=
  { s with phase := Function.update s.phase t p }

/-- Where a thread is after its call: a thread of `start` has nothing else to do. -/
def after : Thread → ServePhase
  | .caller _ => .idle
  | .gui _ => .ended

/-- The next step of `stop` after `shutdown`: `join`, where there is a thread to join. -/
def afterShutdown : Option Thread → ServePhase
  | some target => .joining target
  | none => .closing

/-- The thread that `stop` joins when `t` calls it. -/
def joinTarget (s : Lifecycle) (t : Thread) : Option Thread :=
  if s.serveThread ≠ none ∧ s.serveThread ≠ some t then s.serveThread
  else if s.thread ≠ none ∧ s.thread ≠ some t then s.thread
  else none

/-- The next step of thread `t` in its call; none where it has to wait. -/
def advance (s : Lifecycle) (t : Thread) : Option Lifecycle :=
  match s.phase t with
  | .idle | .ended => none
  | .starting =>
    -- RuntimeError: GUI already started or stopped
    if s.thread ≠ none ∨ s.stopped then some (s.setPhase t (after t))
    else
      some { (s.setPhase (.gui s.made) .entering).setPhase t (after t) with
        thread := some (.gui s.made), made := s.made + 1 }
  | .entering =>
    -- returns, or RuntimeError: GUI already serving
    if s.stopped ∨ s.serving then some (s.setPhase t (after t))
    else some { s.setPhase t .opening with serveThread := some t, serving := true }
  | .opening => some { s.setPhase t .polling with isShutDown := false }
  | .polling => if s.shutdownRequest then some (s.setPhase t .resetting) else some s
  | .resetting => some { s.setPhase t .signalling with shutdownRequest := false }
  | .signalling => some { s.setPhase t .leaving with isShutDown := true }
  | .leaving => some { s.setPhase t (after t) with serving := false, serveThread := none }
  | .stopping =>
    if s.stopLock = none then some { s.setPhase t .reading with stopLock := some t } else none
  | .reading =>
    some { s.setPhase t (if s.serving then .requesting (s.joinTarget t)
      else afterShutdown (s.joinTarget t)) with stopped := true }
  | .requesting target => some { s.setPhase t (.awaiting target) with shutdownRequest := true }
  | .awaiting target => if s.isShutDown then some (s.setPhase t (afterShutdown target)) else none
  | .joining target => if s.phase target = .ended then some (s.setPhase t .closing) else none
  | .closing => some { s.setPhase t .forgetting with closed := true }
  | .forgetting => some { s.setPhase t .releasing with thread := none }
  | .releasing => some { s.setPhase t (after t) with stopLock := none }

end Lifecycle

/-- An event: thread `t` makes a call, makes the next step of its call, leaves
the loop with an exception, or ends. -/
inductive ServerEvent
  | call (t : Thread) (c : ServerCall)
  | advance (t : Thread)
  | interrupt (t : Thread)
  | finish (t : Thread)
  deriving DecidableEq, Repr

/-- Where a call begins. -/
def ServerCall.entry : ServerCall → ServePhase
  | start => .starting
  | serveForever => .entering
  | stop => .stopping

namespace Lifecycle

/-- One step; none when it cannot be made. -/
def step (s : Lifecycle) : ServerEvent → Option Lifecycle
  | .call t c => if s.phase t = .idle then some (s.setPhase t c.entry) else none
  | .advance t => s.advance t
  | .interrupt t => if s.phase t = .polling then some (s.setPhase t .resetting) else none
  | .finish t => if s.phase t = .idle then some (s.setPhase t .ended) else none

/-- `step` as a relation. -/
abbrev Next (s : Lifecycle) (e : ServerEvent) (t : Lifecycle) : Prop := s.step e = some t

variable {s s' : Lifecycle} {t u : Thread}

@[simp] theorem setPhase_phase_self (s : Lifecycle) (t : Thread) (p : ServePhase) :
    (s.setPhase t p).phase t = p := by
  simp [setPhase]

theorem setPhase_phase (s : Lifecycle) (t u : Thread) (p : ServePhase) :
    (s.setPhase t p).phase u = if u = t then p else s.phase u := by
  simp [setPhase, Function.update_apply]

@[simp] theorem setPhase_toServerFields (s : Lifecycle) (t : Thread) (p : ServePhase) :
    (s.setPhase t p).toServerFields = s.toServerFields := rfl

/-! ## What a step can do -/

/-- A step, by what it does to the fields. -/
inductive Moves (s : Lifecycle) (t : Thread) : Lifecycle → Prop
  | calls {c : ServerCall} (hp : s.phase t = .idle) : Moves s t (s.setPhase t c.entry)
  | finishes (hp : s.phase t = .idle) : Moves s t (s.setPhase t .ended)
  | interrupted (hp : s.phase t = .polling) : Moves s t (s.setPhase t .resetting)
  | refused (hp : s.phase t = .starting ∨ s.phase t = .entering) :
      Moves s t (s.setPhase t (after t))
  | starts (hp : s.phase t = .starting) (hthread : s.thread = none) (hstopped : s.stopped = false) :
      Moves s t { (s.setPhase (.gui s.made) .entering).setPhase t (after t) with
        thread := some (.gui s.made), made := s.made + 1 }
  | enters (hp : s.phase t = .entering) (hstopped : s.stopped = false)
      (hserving : s.serving = false) :
      Moves s t { s.setPhase t .opening with serveThread := some t, serving := true }
  | opens (hp : s.phase t = .opening) :
      Moves s t { s.setPhase t .polling with isShutDown := false }
  | polls (hp : s.phase t = .polling) (hrequest : s.shutdownRequest = false) : Moves s t s
  | ends (hp : s.phase t = .polling) (hrequest : s.shutdownRequest = true) :
      Moves s t (s.setPhase t .resetting)
  | resets (hp : s.phase t = .resetting) :
      Moves s t { s.setPhase t .signalling with shutdownRequest := false }
  | signals (hp : s.phase t = .signalling) :
      Moves s t { s.setPhase t .leaving with isShutDown := true }
  | leaves (hp : s.phase t = .leaving) :
      Moves s t { s.setPhase t (after t) with serving := false, serveThread := none }
  | locks (hp : s.phase t = .stopping) (hlock : s.stopLock = none) :
      Moves s t { s.setPhase t .reading with stopLock := some t }
  | reads (hp : s.phase t = .reading) :
      Moves s t { s.setPhase t (if s.serving then .requesting (s.joinTarget t)
        else afterShutdown (s.joinTarget t)) with stopped := true }
  | requests {target : Option Thread} (hp : s.phase t = .requesting target) :
      Moves s t { s.setPhase t (.awaiting target) with shutdownRequest := true }
  | awaits {target : Option Thread} (hp : s.phase t = .awaiting target)
      (hset : s.isShutDown = true) : Moves s t (s.setPhase t (afterShutdown target))
  | joins {target : Thread} (hp : s.phase t = .joining target)
      (hended : s.phase target = .ended) : Moves s t (s.setPhase t .closing)
  | closes (hp : s.phase t = .closing) : Moves s t { s.setPhase t .forgetting with closed := true }
  | forgets (hp : s.phase t = .forgetting) :
      Moves s t { s.setPhase t .releasing with thread := none }
  | releases (hp : s.phase t = .releasing) :
      Moves s t { s.setPhase t (after t) with stopLock := none }

theorem moves_of_advance (h : s.advance t = some s') : Moves s t s' := by
  unfold advance at h
  split at h
  case h_1 | h_2 => cases h
  case h_3 hp =>
    split at h
    · cases h; exact .refused (.inl hp)
    · cases h; exact .starts hp (by simp_all) (by simp_all)
  case h_4 hp =>
    split at h
    · cases h; exact .refused (.inr hp)
    · cases h; exact .enters hp (by simp_all) (by simp_all)
  case h_5 hp => cases h; exact .opens hp
  case h_6 hp =>
    split at h
    · cases h; exact .ends hp ‹_›
    · cases h; exact .polls hp (by simp_all)
  case h_7 hp => cases h; exact .resets hp
  case h_8 hp => cases h; exact .signals hp
  case h_9 hp => cases h; exact .leaves hp
  case h_10 hp =>
    split at h
    · cases h; exact .locks hp ‹_›
    · cases h
  case h_11 hp => cases h; exact .reads hp
  case h_12 hp => cases h; exact .requests hp
  case h_13 hp =>
    split at h
    · cases h; exact .awaits hp ‹_›
    · cases h
  case h_14 hp =>
    split at h
    · cases h; exact .joins hp ‹_›
    · cases h
  case h_15 hp => cases h; exact .closes hp
  case h_16 hp => cases h; exact .forgets hp
  case h_17 hp => cases h; exact .releases hp

/-- The thread that makes a step. -/
def actor : ServerEvent → Thread
  | .call t _ | .advance t | .interrupt t | .finish t => t

theorem moves_of_step {e : ServerEvent} (h : Next s e s') : Moves s (actor e) s' := by
  cases e with
  | call t c =>
    obtain ⟨hp, rfl⟩ : s.phase t = .idle ∧ s.setPhase t c.entry = s' := by
      simpa [Next, step] using h
    exact .calls hp
  | advance t => exact moves_of_advance h
  | interrupt t =>
    obtain ⟨hp, rfl⟩ : s.phase t = .polling ∧ s.setPhase t .resetting = s' := by
      simpa [Next, step] using h
    exact .interrupted hp
  | finish t =>
    obtain ⟨hp, rfl⟩ : s.phase t = .idle ∧ s.setPhase t .ended = s' := by
      simpa [Next, step] using h
    exact .finishes hp

/-! ## The invariant -/

/-- What holds of thread `t` in phase `p`. -/
structure Fits (s : ServerFields) (t : Thread) (p : ServePhase) : Prop where
  holder : p.holds = true ↔ s.stopLock = some t
  server : p.serves = true ↔ s.serveThread = some t
  /-- a thread of `start` does nothing but serve -/
  gui : ∀ k, t = .gui k → p = .ended ∨ p = .entering ∨ p.serves = true
  unmade : ∀ k, t = .gui k → s.made ≤ k → p = .ended
  signalled : p = .leaving → s.isShutDown = true
  read : p.hasRead = true → s.stopped = true
  /-- who serves is who will be joined -/
  target : p.hasRead = true → ∀ u, s.serveThread = some u → p.target? = some u
  apart : p.target? ≠ some t
  asked : p.asks = true → s.isShutDown = true ∨ s.serveThread ≠ none

/-- What holds in every state that calls can lead to. -/
structure Sound (s : Lifecycle) : Prop where
  fits : ∀ t, Fits s.toServerFields t (s.phase t)
  serving : s.serving = s.serveThread.isSome
  thread : ∀ u, s.thread = some u → u = .gui 0 ∧ s.made = 1
  made : s.thread = none → s.made = 0 ∨ s.made = 1 ∧ s.stopped = true
  closed : s.closed = true → s.stopped = true ∧ s.serveThread = none

theorem fits_update {fields fields' : ServerFields} {phase : Thread → ServePhase}
    {p : ServePhase} (h : ∀ u, Fits fields u (phase u)) (hown : Fits fields' t p)
    (hothers : ∀ u, u ≠ t → Fits fields u (phase u) → Fits fields' u (phase u)) (u : Thread) :
    Fits fields' u (Function.update phase t p u) := by
  by_cases hu : u = t
  · subst hu
    rwa [Function.update_self]
  · rw [Function.update_of_ne hu]
    exact hothers u hu (h u)

namespace Fits

variable {f : ServerFields} {p : ServePhase}

theorem free (hholds : p.holds = false) (hserves : p.serves = false) (hlock : f.stopLock ≠ some t)
    (hserver : f.serveThread ≠ some t)
    (hgui : ∀ k, t = .gui k → p = .ended ∨ p = .entering ∧ k < f.made) : Fits f t p where
  holder := by simp [hholds, hlock]
  server := by simp [hserves, hserver]
  gui k hk := (hgui k hk).imp_right fun h => .inl h.1
  unmade k hk hmade := (hgui k hk).resolve_right fun h => by omega
  signalled hp := by subst hp; cases hserves
  read hp := by simp [ServePhase.hasRead, hholds] at hp
  target hp := by simp [ServePhase.hasRead, hholds] at hp
  apart := by cases p <;> simp_all [ServePhase.target?, ServePhase.holds]
  asked hp := by cases p <;> simp_all [ServePhase.asks, ServePhase.holds]

theorem serving (hserves : p.serves = true) (hlock : f.stopLock ≠ some t)
    (hserver : f.serveThread = some t) (hmade : ∀ k, t = .gui k → k < f.made)
    (hsignalled : p = .leaving → f.isShutDown = true) : Fits f t p := by
  have hholds := ServePhase.holds_of_serves hserves
  exact {
    holder := by simp [hholds, hlock]
    server := by simp [hserves, hserver]
    gui := fun _ _ => .inr (.inr hserves)
    unmade := fun k hk h => absurd (hmade k hk) (by omega)
    signalled := hsignalled
    read := fun hp => by simp [ServePhase.hasRead, hholds] at hp
    target := fun hp => by simp [ServePhase.hasRead, hholds] at hp
    apart := by cases p <;> simp_all [ServePhase.target?, ServePhase.holds]
    asked := fun hp => by cases p <;> simp_all [ServePhase.asks, ServePhase.holds] }

theorem holding (hholds : p.holds = true) (hlock : f.stopLock = some t)
    (hserver : f.serveThread ≠ some t) (hcaller : ∀ k, t ≠ .gui k)
    (hread : p.hasRead = true → f.stopped = true)
    (htarget : p.hasRead = true → ∀ u, f.serveThread = some u → p.target? = some u)
    (hapart : p.target? ≠ some t)
    (hasked : p.asks = true → f.isShutDown = true ∨ f.serveThread ≠ none) : Fits f t p := by
  have hserves := ServePhase.serves_of_holds hholds
  exact {
    holder := by simp [hholds, hlock]
    server := by simp [hserves, hserver]
    gui := fun k hk => absurd hk (hcaller k)
    unmade := fun k hk => absurd hk (hcaller k)
    signalled := fun hp => by subst hp; cases hserves
    read := hread
    target := htarget
    apart := hapart
    asked := hasked }

theorem lock_ne (h : Fits f t p) (hp : p.holds = false) : f.stopLock ≠ some t := fun ht => by
  rw [h.holder.mpr ht] at hp
  cases hp

theorem server_ne (h : Fits f t p) (hp : p.serves = false) : f.serveThread ≠ some t := fun ht => by
  rw [h.server.mpr ht] at hp
  cases hp

theorem lock_eq (h : Fits f t p) (hp : p.holds = true) : f.stopLock = some t := h.holder.mp hp

theorem server_eq (h : Fits f t p) (hp : p.serves = true) : f.serveThread = some t :=
  h.server.mp hp

/-- A thread that `start` made is in `serve_forever` or has ended. -/
theorem caller (h : Fits f t p) (hserves : p.serves = false) (hended : p ≠ .ended)
    (hentering : p ≠ .entering) (k : Nat) : t ≠ .gui k := fun hk => by
  obtain h | h | h := h.gui k hk
  · exact hended h
  · exact hentering h
  · rw [hserves] at h
    cases h

theorem lt_made (h : Fits f t p) (hended : p ≠ .ended) (k : Nat) (hk : t = .gui k) :
    k < f.made := by
  by_contra hmade
  exact hended (h.unmade k hk (by omega))

/-- After its call a thread is in none. -/
theorem to_after (h : Fits f t p) (hlock : f.stopLock ≠ some t) (hserver : f.serveThread ≠ some t) :
    Fits f t (after t) := by
  cases t with
  | caller i => exact .free rfl rfl hlock hserver fun k hk => by cases hk
  | gui i => exact .free rfl rfl hlock hserver fun k hk => .inl rfl

/-- `stop` goes on to its next phase. -/
theorem proceed {q : ServePhase} (h : Fits f t p) (hp : p.hasRead = true) (hq : q.holds = true)
    (htarget : q.target? = p.target? ∨ f.serveThread = none ∧ q.target? = none)
    (hasked : q.asks = true → p.asks = true) : Fits f t q := by
  have hholds := ServePhase.holds_of_hasRead hp
  have hserves := ServePhase.serves_of_holds hholds
  refine .holding hq (h.lock_eq hholds) (h.server_ne hserves) ?_ (fun _ => h.read hp) ?_ ?_
    fun hq => h.asked (hasked hq)
  · exact h.caller hserves (by rintro rfl; cases hholds) (by rintro rfl; cases hholds)
  · intro _ u hu
    obtain ht | ⟨hnone, -⟩ := htarget
    · rw [ht]
      exact h.target hp u hu
    · rw [hnone] at hu
      cases hu
  · obtain ht | ⟨-, hnone⟩ := htarget
    · rw [ht]
      exact h.apart
    · simp [hnone]

end Fits

theorem joinTarget_ne (s : Lifecycle) (t : Thread) : s.joinTarget t ≠ some t := by
  unfold joinTarget
  split
  · exact And.right ‹_›
  · split
    · exact And.right ‹_›
    · simp

theorem joinTarget_of_serving (hu : s.serveThread = some u) (hne : u ≠ t) :
    s.joinTarget t = some u := by
  simp [joinTarget, hu, hne]

@[simp] theorem holds_afterShutdown (target : Option Thread) :
    (afterShutdown target).holds = true := by
  cases target <;> rfl

@[simp] theorem asks_afterShutdown (target : Option Thread) :
    (afterShutdown target).asks = false := by
  cases target <;> rfl

@[simp] theorem target?_afterShutdown (target : Option Thread) :
    (afterShutdown target).target? = target := by
  cases target <;> rfl

@[simp] theorem looks_afterShutdown (target : Option Thread) :
    (afterShutdown target).looks = false := by
  cases target <;> rfl

@[simp] theorem looks_after (t : Thread) : (after t).looks = false := by
  cases t <;> rfl

@[simp] theorem hasRequested_after (t : Thread) : (after t).hasRequested = false := by
  cases t <;> rfl

namespace Sound

/-- A step that leaves the fields alone. -/
theorem setPhase {p : ServePhase} (h : Sound s) (hp : Fits s.toServerFields t p) :
    Sound (s.setPhase t p) :=
  ⟨fits_update h.fits hp fun _ _ hu => hu, h.serving, h.thread, h.made, h.closed⟩

theorem free {p : ServePhase} (h : Sound s) (hholds : (s.phase t).holds = false)
    (hserves : (s.phase t).serves = false) (hp : p.holds = false) (hp' : p.serves = false)
    (hcaller : ∀ k, t ≠ .gui k) : Sound (s.setPhase t p) :=
  h.setPhase (.free hp hp' ((h.fits t).lock_ne hholds) ((h.fits t).server_ne hserves)
    fun k hk => absurd hk (hcaller k))

/-- A step inside the loop that leaves the fields alone. -/
theorem inLoop {p : ServePhase} (h : Sound s) (hserves : (s.phase t).serves = true)
    (hp : p.serves = true) (hleaving : p ≠ .leaving) : Sound (s.setPhase t p) := by
  have ht := h.fits t
  have hholds := ServePhase.holds_of_serves hserves
  exact h.setPhase (.serving hp (ht.lock_ne hholds) (ht.server_eq hserves)
    (ht.lt_made fun hended => by rw [hended] at hserves; cases hserves)
    fun hp => absurd hp hleaving)

theorem refused (h : Sound s) (hp : s.phase t = .starting ∨ s.phase t = .entering) :
    Sound (s.setPhase t (after t)) := by
  have ht := h.fits t
  refine h.setPhase (ht.to_after (ht.lock_ne ?_) (ht.server_ne ?_))
  · obtain hp | hp := hp <;> rw [hp] <;> rfl
  · obtain hp | hp := hp <;> rw [hp] <;> rfl

/-! ### `start` and `serve_forever` -/

theorem starts (h : Sound s) (hp : s.phase t = .starting) (hthread : s.thread = none)
    (hstopped : s.stopped = false) :
    Sound { (s.setPhase (.gui s.made) .entering).setPhase t (after t) with
      thread := some (.gui s.made), made := s.made + 1 } := by
  have ht := h.fits t
  rw [hp] at ht
  have hmade : s.made = 0 := (h.made hthread).resolve_right fun h => by simp [hstopped] at h
  have hgui := h.fits (.gui s.made)
  rw [hgui.unmade s.made rfl (Nat.le_refl _)] at hgui
  have hmore : ∀ {u : Thread} {p : ServePhase}, Fits s.toServerFields u p →
      Fits { s.toServerFields with thread := some (.gui s.made), made := s.made + 1 } u p :=
    fun hu => { hu with unmade := fun k hk hle => hu.unmade k hk (by simp at hle; omega) }
  refine ⟨fits_update
      (fun u => fits_update (fun u => hmore (h.fits u)) ?_ (fun _ _ hu => hu) u) ?_
    fun _ _ hu => hu, h.serving, fun u hu => ?_, fun hnone => by simp at hnone, h.closed⟩
  · refine .free rfl rfl (hgui.lock_ne rfl) (hgui.server_ne rfl) fun k hk => .inr ⟨rfl, ?_⟩
    cases hk
    simp
  · exact (hmore ht).to_after (ht.lock_ne rfl) (ht.server_ne rfl)
  · cases hu
    simp [hmade]

theorem enters (h : Sound s) (hp : s.phase t = .entering) (hstopped : s.stopped = false)
    (hserving : s.serving = false) :
    Sound { s.setPhase t .opening with serveThread := some t, serving := true } := by
  have ht := h.fits t
  rw [hp] at ht
  have hnone : s.serveThread = none := by simpa [hserving] using h.serving
  refine ⟨fits_update h.fits ?_ fun u hu hfits => ?_, rfl, h.thread, h.made, fun hclosed => ?_⟩
  · exact .serving rfl (ht.lock_ne rfl) rfl (ht.lt_made (by simp)) fun h => by cases h
  · exact { hfits with
      server := by rw [hfits.server, hnone]; simp [Ne.symm hu]
      target := fun hread => by simp [hfits.read hread] at hstopped
      asked := fun _ => .inr (by simp) }
  · simp [(h.closed hclosed).1] at hstopped

theorem opens (h : Sound s) (hp : s.phase t = .opening) :
    Sound { s.setPhase t .polling with isShutDown := false } := by
  have ht := h.fits t
  rw [hp] at ht
  have hserver := ht.server_eq rfl
  refine ⟨fits_update h.fits ?_ fun u hu hfits => ?_, h.serving, h.thread, h.made, h.closed⟩
  · exact .serving rfl (ht.lock_ne rfl) hserver (ht.lt_made (by simp)) fun h => by cases h
  · exact { hfits with
      signalled := fun hp => by
        have hu' := hfits.server_eq (by rw [hp]; rfl)
        rw [hserver, Option.some.injEq] at hu'
        exact absurd hu'.symm hu
      asked := fun _ => .inr (by simp [hserver]) }

theorem resets (h : Sound s) (hp : s.phase t = .resetting) :
    Sound { s.setPhase t .signalling with shutdownRequest := false } := by
  have ht := h.fits t
  rw [hp] at ht
  refine ⟨fits_update h.fits ?_ fun u hu hfits => { hfits with }, h.serving, h.thread, h.made,
    h.closed⟩
  exact .serving rfl (ht.lock_ne rfl) (ht.server_eq rfl) (ht.lt_made (by simp)) fun h => by cases h

theorem signals (h : Sound s) (hp : s.phase t = .signalling) :
    Sound { s.setPhase t .leaving with isShutDown := true } := by
  have ht := h.fits t
  rw [hp] at ht
  refine ⟨fits_update h.fits ?_ fun u hu hfits => ?_, h.serving, h.thread, h.made, h.closed⟩
  · exact .serving rfl (ht.lock_ne rfl) (ht.server_eq rfl) (ht.lt_made (by simp)) fun _ => rfl
  · exact { hfits with
      signalled := fun _ => rfl
      asked := fun _ => .inl rfl }

theorem leaves (h : Sound s) (hp : s.phase t = .leaving) :
    Sound { s.setPhase t (after t) with serving := false, serveThread := none } := by
  have ht := h.fits t
  rw [hp] at ht
  have hserver := ht.server_eq rfl
  refine ⟨fits_update h.fits ?_ fun u hu hfits => ?_, rfl, h.thread, h.made, fun hclosed => ?_⟩
  · have hbusy : ∀ k, t = .gui k → k < s.made := ht.lt_made (by simp)
    cases t with
    | caller i => exact .free rfl rfl (ht.lock_ne rfl) (by simp) fun k hk => by cases hk
    | gui i => exact .free rfl rfl (ht.lock_ne rfl) (by simp) fun k hk => .inl rfl
  · exact { hfits with
      server := by rw [hfits.server, hserver]; simp [Ne.symm hu]
      target := fun _ u hu => by cases hu
      asked := fun _ => .inl (ht.signalled rfl) }
  · exact ⟨(h.closed hclosed).1, rfl⟩

/-! ### `stop` -/

theorem locks (h : Sound s) (hp : s.phase t = .stopping) (hlock : s.stopLock = none) :
    Sound { s.setPhase t .reading with stopLock := some t } := by
  have ht := h.fits t
  rw [hp] at ht
  refine ⟨fits_update h.fits ?_ fun u hu hfits => ?_, h.serving, h.thread, h.made, h.closed⟩
  · exact .holding rfl rfl (ht.server_ne rfl) (ht.caller rfl (by simp) (by simp))
      (fun h => by cases h) (fun h => by cases h) (by simp [ServePhase.target?])
      (fun h => by cases h)
  · exact { hfits with holder := by rw [hfits.holder, hlock]; simp [Ne.symm hu] }

theorem reads (h : Sound s) (hp : s.phase t = .reading) :
    Sound { s.setPhase t (if s.serving then .requesting (s.joinTarget t)
      else afterShutdown (s.joinTarget t)) with stopped := true } := by
  have ht := h.fits t
  rw [hp] at ht
  refine ⟨fits_update h.fits ?_ fun u hu hfits => { hfits with read := fun _ => rfl }, h.serving,
    h.thread, fun hnone => (h.made hnone).imp_right fun h => ⟨h.1, rfl⟩,
    fun hclosed => ⟨rfl, (h.closed hclosed).2⟩⟩
  have hcaller := ht.caller rfl (by simp) (by simp)
  cases hserver : s.serveThread with
  | none =>
    have hserving : s.serving = false := by rw [h.serving, hserver]; rfl
    rw [hserving]
    exact .holding (by simp) (ht.lock_eq rfl) (ht.server_ne rfl) hcaller (fun _ => rfl)
      (fun _ u hu => by simp [hserver] at hu) (by simpa using joinTarget_ne s t) (by simp)
  | some u =>
    have hserving : s.serving = true := by rw [h.serving, hserver]; rfl
    have hut : u ≠ t := fun hut => ht.server_ne rfl (by rw [hserver, hut])
    rw [hserving, if_pos rfl, joinTarget_of_serving hserver hut]
    exact .holding rfl (ht.lock_eq rfl) (ht.server_ne rfl) hcaller (fun _ => rfl)
      (fun _ v hv => by simpa [hserver, ServePhase.target?] using hv)
      (by simpa [ServePhase.target?] using hut) fun _ => .inr (by simp [hserver])

theorem requests (h : Sound s) {target : Option Thread} (hp : s.phase t = .requesting target) :
    Sound { s.setPhase t (.awaiting target) with shutdownRequest := true } := by
  have ht := h.fits t
  rw [hp] at ht
  have hown := ht.proceed (q := .awaiting target) rfl rfl (.inl rfl) id
  exact ⟨fits_update h.fits { hown with } fun u hu hfits => { hfits with }, h.serving, h.thread,
    h.made, h.closed⟩

theorem awaits (h : Sound s) {target : Option Thread} (hp : s.phase t = .awaiting target) :
    Sound (s.setPhase t (afterShutdown target)) := by
  have ht := h.fits t
  rw [hp] at ht
  exact h.setPhase (ht.proceed rfl (by simp) (.inl (target?_afterShutdown _)) (by simp))

theorem joins (h : Sound s) {target : Thread} (hp : s.phase t = .joining target)
    (hended : s.phase target = .ended) : Sound (s.setPhase t .closing) := by
  have ht := h.fits t
  rw [hp] at ht
  have hnone : s.serveThread = none := by
    cases hserver : s.serveThread with
    | none => rfl
    | some u =>
      obtain rfl : target = u := by simpa [ServePhase.target?] using ht.target rfl u hserver
      exact absurd hserver ((h.fits target).server_ne (by rw [hended]; rfl))
  exact h.setPhase (ht.proceed rfl rfl (.inr ⟨hnone, rfl⟩) fun h => by cases h)

theorem closes (h : Sound s) (hp : s.phase t = .closing) :
    Sound { s.setPhase t .forgetting with closed := true } := by
  have ht := h.fits t
  rw [hp] at ht
  have hown := ht.proceed (q := .forgetting) rfl rfl (.inl rfl) id
  have hserver : s.serveThread = none := by
    cases hserver : s.serveThread with
    | none => rfl
    | some u => cases ht.target rfl u hserver
  exact ⟨fits_update h.fits { hown with } fun u hu hfits => { hfits with }, h.serving, h.thread,
    h.made, fun _ => ⟨ht.read rfl, hserver⟩⟩

theorem forgets (h : Sound s) (hp : s.phase t = .forgetting) :
    Sound { s.setPhase t .releasing with thread := none } := by
  have ht := h.fits t
  rw [hp] at ht
  have hown := ht.proceed (q := .releasing) rfl rfl (.inl rfl) id
  refine ⟨fits_update h.fits { hown with } fun u hu hfits => { hfits with }, h.serving,
    (fun u hu => by cases hu), fun _ => ?_, h.closed⟩
  have hstopped := ht.read rfl
  cases hthread : s.thread with
  | none => exact h.made hthread
  | some u => exact .inr ⟨(h.thread u hthread).2, hstopped⟩

theorem releases (h : Sound s) (hp : s.phase t = .releasing) :
    Sound { s.setPhase t (after t) with stopLock := none } := by
  have ht := h.fits t
  rw [hp] at ht
  have hlock := ht.lock_eq rfl
  refine ⟨fits_update h.fits ?_ fun u hu hfits => ?_, h.serving, h.thread, h.made, h.closed⟩
  · cases t with
    | caller i => exact .free rfl rfl (by simp) (ht.server_ne rfl) fun k hk => by cases hk
    | gui i => exact absurd rfl (ht.caller rfl (by simp) (by simp) i)
  · exact { hfits with holder := by rw [hfits.holder, hlock]; simp [Ne.symm hu] }

/-! ### Every step -/

theorem moves (h : Sound s) (hm : Moves s t s') : Sound s' := by
  have ht := h.fits t
  cases hm with
  | @calls c hp =>
    rw [hp] at ht
    refine h.free (by rw [hp]; rfl) (by rw [hp]; rfl) ?_ ?_ (ht.caller rfl (by simp) (by simp))
    · cases c <;> rfl
    · cases c <;> rfl
  | finishes hp =>
    rw [hp] at ht
    exact h.free (by rw [hp]; rfl) (by rw [hp]; rfl) rfl rfl (ht.caller rfl (by simp) (by simp))
  | interrupted hp | ends hp => exact h.inLoop (by rw [hp]; rfl) rfl (by simp)
  | refused hp => exact h.refused hp
  | starts hp hthread hstopped => exact h.starts hp hthread hstopped
  | enters hp hstopped hserving => exact h.enters hp hstopped hserving
  | opens hp => exact h.opens hp
  | polls hp => exact h
  | resets hp => exact h.resets hp
  | signals hp => exact h.signals hp
  | leaves hp => exact h.leaves hp
  | locks hp hlock => exact h.locks hp hlock
  | reads hp => exact h.reads hp
  | requests hp => exact h.requests hp
  | awaits hp => exact h.awaits hp
  | joins hp hended => exact h.joins hp hended
  | closes hp => exact h.closes hp
  | forgets hp => exact h.forgets hp
  | releases hp => exact h.releases hp

theorem step {e : ServerEvent} (h : Sound s) (hnext : Next s e s') : Sound s' :=
  h.moves (moves_of_step hnext)

theorem fresh : Sound fresh where
  fits t := by
    cases t with
    | caller i =>
      exact .free rfl rfl (fun h => by cases h) (fun h => by cases h) fun k hk => by cases hk
    | gui k =>
      exact .free rfl rfl (fun h => by cases h) (fun h => by cases h) fun k hk => .inl rfl
  serving := rfl
  thread u hu := by cases hu
  made _ := .inl rfl
  closed h := by cases h

theorem run {es : List ServerEvent} (h : Runs Next Lifecycle.fresh es s) : Sound s :=
  Runs.invariant (fun _ _ _ hs hnext => hs.step hnext) h fresh

end Sound

/-- A loop that `stop` has asked to end finds the request. -/
def Requested (s : Lifecycle) : Prop :=
  ∀ t u, (s.phase t).hasRequested = true → (s.phase u).looks = true → s.shutdownRequest = true

namespace Requested

theorem update {f : ServerFields} {p : ServePhase} (h : Requested s)
    (hasks : p.hasRequested = true → ∀ u, (s.phase u).looks = true → f.shutdownRequest = true)
    (hlooks : p.looks = true → ∀ u, (s.phase u).hasRequested = true → f.shutdownRequest = true)
    (hkeeps : s.shutdownRequest = true → f.shutdownRequest = true ∨
      ∀ u, u ≠ t → (s.phase u).looks = false) :
    Requested { f with phase := Function.update s.phase t p } := by
  intro x y hx hy
  simp only [Function.update_apply] at hx hy
  split at hx <;> split at hy
  · cases p <;> simp_all [ServePhase.hasRequested, ServePhase.looks]
  · exact hasks hx y hy
  · exact hlooks hy x hx
  · obtain hkeeps | hnone := hkeeps (h x y hx hy)
    · exact hkeeps
    · rw [hnone y ‹_›] at hy
      cases hy

/-- A phase that neither asks for the end of a loop nor is in one. -/
theorem outside {p : ServePhase} (h : Requested s) (hp : p.hasRequested = false)
    (hp' : p.looks = false) : Requested (s.setPhase t p) :=
  h.update (by simp [hp]) (by simp [hp']) .inl

theorem moves (h : Requested s) (hs : Sound s) (hm : Moves s t s') : Requested s' := by
  have ht := hs.fits t
  cases hm with
  | @calls c hp => exact h.outside (by cases c <;> rfl) (by cases c <;> rfl)
  | finishes hp | interrupted hp | ends hp => exact h.outside rfl rfl
  | refused hp => exact h.outside (hasRequested_after t) (looks_after t)
  | starts hp hthread hstopped =>
    have hgui : Requested (s.setPhase (.gui s.made) .entering) := h.outside rfl rfl
    exact hgui.update (by simp) (by simp) .inl
  | enters hp hstopped hserving =>
    refine h.update (fun h => by cases h) (fun _ u hu => ?_) .inl
    -- whoever has asked the server to shut down has marked the GUI as stopped before
    have hread := (hs.fits u).read (ServePhase.hasRead_of_hasRequested hu)
    simp [hread] at hstopped
  | opens hp => exact h.update (fun h => by cases h) (fun _ u hu => h u t hu (by rw [hp]; rfl)) .inl
  | polls hp => exact h
  | resets hp =>
    rw [hp] at ht
    refine h.update (fun h => by cases h) (fun h => by cases h) fun _ => .inr fun u hu => ?_
    -- at most one thread serves, and it is this one that has left the loop
    by_contra hlooks
    have hserver := (hs.fits u).server_eq (ServePhase.serves_of_looks (by simpa using hlooks))
    rw [ht.server_eq rfl, Option.some.injEq] at hserver
    exact hu hserver.symm
  | signals hp => exact h.update (fun h => by cases h) (fun h => by cases h) .inl
  | leaves hp =>
    exact h.update (by simp) (by simp) .inl
  | locks hp hlock => exact h.update (fun h => by cases h) (fun h => by cases h) .inl
  | reads hp =>
    refine h.update (fun hasked u hu => ?_) (fun hlooks => ?_) .inl
    · have hserver := (hs.fits u).server_eq (ServePhase.serves_of_looks hu)
      simp [hs.serving, hserver, ServePhase.hasRequested] at hasked
    · split at hlooks
      · cases hlooks
      · rw [looks_afterShutdown] at hlooks
        cases hlooks
  | requests hp => exact h.update (fun _ _ _ => rfl) (fun h => by cases h) fun _ => .inl rfl
  | awaits hp hset =>
    exact h.update (fun _ u hu => h t u (by rw [hp]; rfl) hu) (by simp) .inl
  | joins hp hended =>
    exact h.update (fun _ u hu => h t u (by rw [hp]; rfl) hu) (fun h => by cases h) .inl
  | closes hp | forgets hp =>
    exact h.update (fun _ u hu => h t u (by rw [hp]; rfl) hu) (fun h => by cases h) .inl
  | releases hp =>
    exact h.update (by simp) (by simp) .inl

theorem run {es : List ServerEvent} (h : Runs Next fresh es s) : Requested s := by
  have hrun := Runs.invariant (I := fun s => Sound s ∧ Requested s)
    (fun _ _ _ hs hnext => ⟨hs.1.step hnext, hs.2.moves hs.1 (moves_of_step hnext)⟩) h
    ⟨Sound.fresh, fun t u ht => by cases t <;> cases ht⟩
  exact hrun.2

end Requested

end Lifecycle

end TitoOS
