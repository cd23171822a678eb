import TitoOS.Gui.Lifecycle

/-!
# What stopping the server comes to

The server is closed when nobody serves, and a call of `stop` can return unless
the thread that it is going to join has itself called `stop`
(`stop_returns_unless_deadlocked`): that thread waits for `_stop_lock`, which is held until it
has ended.
-/

namespace TitoOS

/-- A step of a call, or the end of a thread. -/
def ServerEvent.isOwn : ServerEvent → Bool
  | advance _ | finish _ => true
  | call .. | interrupt _ => false

namespace Lifecycle

variable {s s' v : Lifecycle} {t u x : Thread} {es fs : List ServerEvent}

/-- The holder of `_stop_lock` is going to join a thread that waits for it. -/
def Deadlocked (s : Lifecycle) : Prop :=
  ∃ t u, (s.phase t).target? = some u ∧ s.phase u = .stopping

/-- What the threads can come to by themselves: no call is made, and no loop is
left with an exception. -/
abbrev Leads (Q : Lifecycle → Prop) (s : Lifecycle) : Prop :=
  Runs.Leads Next (fun e => e.isOwn = true) Q s

/-- A state that calls can lead to, as far as it matters here. -/
structure Good (s : Lifecycle) : Prop where
  sound : Sound s
  requested : Requested s

theorem Good.run (h : Runs Next fresh es s) : Good s := ⟨.run h, .run h⟩

theorem Good.step {e : ServerEvent} (h : Good s) (hnext : Next s e s') : Good s' :=
  ⟨h.sound.step hnext, h.requested.moves h.sound (moves_of_step hnext)⟩

/-! ## A thread comes to its end -/

/-- How many steps a thread outside `stop` has left, once `_stopped` is set. -/
def stepsLeft : ServePhase → Nat
  | .ended => 0
  | .idle => 1
  | .starting | .entering | .leaving => 2
  | .signalling => 3
  | .resetting => 4
  | .polling => 5
  | _ => 6

/-- Not in `stop`, and about to find that the server was stopped. -/
structure Outbound (s : Lifecycle) (u : Thread) : Prop where
  stopped : s.stopped = true
  stops : (s.phase u).stops = false
  looks : (s.phase u).looks = true → s.shutdownRequest = true

theorem stepsLeft_after (t : Thread) : stepsLeft (after t) ≤ 1 := by
  cases t <;> simp [after, stepsLeft]

theorem stops_after (t : Thread) : (after t).stops = false := by
  cases t <;> rfl

/-- One more step of `u` on its way to its end. -/
def Nearer (s : Lifecycle) (u : Thread) (v : Lifecycle) : Prop :=
  Outbound v u ∧ stepsLeft (v.phase u) < stepsLeft (s.phase u) ∧ ∀ x, x ≠ u → v.phase x = s.phase x

theorem nearer {f : ServerFields} {p : ServePhase} (hstopped : f.stopped = true)
    (hstops : p.stops = false) (hlooks : p.looks = true → f.shutdownRequest = true)
    (hless : stepsLeft p < stepsLeft (s.phase u)) :
    Nearer s u { f with phase := Function.update s.phase u p } := by
  refine ⟨⟨hstopped, ?_, ?_⟩, ?_, fun x hx => Function.update_of_ne hx _ _⟩
  all_goals simpa [Function.update_self]

theorem Outbound.exists_step (h : Outbound s u) (hended : s.phase u ≠ .ended) :
    ∃ e v, e.isOwn = true ∧ Next s e v ∧ Nearer s u v := by
  have hstops := h.stops
  have hafter : 2 ≤ stepsLeft (s.phase u) → Nearer s u (s.setPhase u (after u)) := fun hleft =>
    nearer h.stopped (stops_after u) (by simp) (Nat.lt_of_le_of_lt (stepsLeft_after u) hleft)
  cases hp : s.phase u with
  | ended => exact absurd hp hended
  | idle =>
    exact ⟨.finish u, s.setPhase u .ended, rfl, by simp [Next, step, hp],
      nearer h.stopped rfl (fun h => by cases h) (by simp [hp, stepsLeft])⟩
  | starting | entering =>
    exact ⟨.advance u, _, rfl, by simp [Next, step, advance, hp, h.stopped],
      hafter (by simp [hp, stepsLeft])⟩
  | opening =>
    exact ⟨.advance u, { s.setPhase u .polling with isShutDown := false }, rfl,
      by simp [Next, step, advance, hp],
      nearer h.stopped rfl (fun _ => h.looks (by rw [hp]; rfl)) (by simp [hp, stepsLeft])⟩
  | polling =>
    -- the request is seen at the next poll
    have hrequest := h.looks (by rw [hp]; rfl)
    exact ⟨.advance u, s.setPhase u .resetting, rfl, by simp [Next, step, advance, hp, hrequest],
      nearer h.stopped rfl (fun h => by cases h) (by simp [hp, stepsLeft])⟩
  | resetting =>
    exact ⟨.advance u, { s.setPhase u .signalling with shutdownRequest := false }, rfl,
      by simp [Next, step, advance, hp],
      nearer h.stopped rfl (fun h => by cases h) (by simp [hp, stepsLeft])⟩
  | signalling =>
    exact ⟨.advance u, { s.setPhase u .leaving with isShutDown := true }, rfl,
      by simp [Next, step, advance, hp],
      nearer h.stopped rfl (fun h => by cases h) (by simp [hp, stepsLeft])⟩
  | leaving =>
    exact ⟨.advance u, { s.setPhase u (after u) with serving := false, serveThread := none }, rfl,
      by simp [Next, step, advance, hp],
      nearer h.stopped (stops_after u) (by simp)
        (Nat.lt_of_le_of_lt (stepsLeft_after u) (by simp [hp, stepsLeft]))⟩
  | stopping | reading | requesting | awaiting | joining | closing | forgetting | releasing =>
    rw [hp] at hstops
    cases hstops

/-- `u` has ended, and the others are where they were. -/
structure Ended (s : Lifecycle) (u : Thread) (v : Lifecycle) : Prop where
  good : Good v
  ended : v.phase u = .ended
  others : ∀ x, x ≠ u → v.phase x = s.phase x

theorem leads_ended (h : Good s) (hout : Outbound s u) : Leads (Ended s u) s := by
  refine Runs.Leads.of_measure
    (I := fun v => Good v ∧ Outbound v u ∧ ∀ x, x ≠ u → v.phase x = s.phase x)
    (fun v => stepsLeft (v.phase u)) ?_ ⟨h, hout, fun _ _ => rfl⟩
  intro v hv hQ
  obtain ⟨e, w, hown, hnext, hw, hless, hothers⟩ :=
    hv.2.1.exists_step fun hended => hQ ⟨hv.1, hended, hv.2.2⟩
  exact ⟨e, w, hown, hnext, ⟨hv.1.step hnext, hw, fun x hx => (hothers x hx).trans (hv.2.2 x hx)⟩,
    hless⟩

/-- A thread on its way to its end waits for no lock. -/
theorem Ended.stays (hout : Outbound s u) (h : Ended s u v) (hx : s.phase x = .stopping) :
    v.phase x = .stopping := by
  have hxu : x ≠ u := fun hxu => by
    have hstops := hout.stops
    rw [← hxu, hx] at hstops
    cases hstops
  rw [h.others x hxu, hx]

/-! ## The holder of the lock comes to its end -/

/-- `stop` has returned in thread `t`, and who waited for its lock waits still. -/
structure Freed (s : Lifecycle) (t : Thread) (v : Lifecycle) : Prop where
  good : Good v
  lock : v.stopLock = none
  back : v.phase t = after t
  waits : ∀ x, x ≠ t → s.phase x = .stopping → v.phase x = .stopping

theorem Freed.cons (hothers : ∀ x, x ≠ t → s.phase x = .stopping → s'.phase x = .stopping)
    (h : Freed s' t v) : Freed s t v :=
  ⟨h.good, h.lock, h.back, fun x hx hs => h.waits x hx (hothers x hx hs)⟩

/-- A step of `t` that leaves the other threads alone. -/
theorem Freed.step {f : ServerFields} {p : ServePhase}
    (hnext : Next s (.advance t) { f with phase := Function.update s.phase t p })
    (h : Leads (Freed { f with phase := Function.update s.phase t p } t)
      { f with phase := Function.update s.phase t p }) : Leads (Freed s t) s :=
  .step hnext rfl (h.mono fun _ hv => hv.cons fun x hx hs => by
    simpa [Function.update_of_ne hx] using hs)

namespace Good

theorem leads_of_releasing (h : Good s) (hp : s.phase t = .releasing) : Leads (Freed s t) s := by
  have hnext : Next s (.advance t) { s.setPhase t (after t) with stopLock := none } := by
    simp [Next, Lifecycle.step, advance, hp]
  exact .step hnext rfl (.here ⟨h.step hnext, rfl, setPhase_phase_self s t _,
    fun x hx hs => by simpa [setPhase_phase, hx] using hs⟩)

theorem leads_of_forgetting (h : Good s) (hp : s.phase t = .forgetting) :
    Leads (Freed s t) s := by
  have hnext : Next s (.advance t) { s.setPhase t .releasing with thread := none } := by
    simp [Next, Lifecycle.step, advance, hp]
  exact Freed.step hnext ((h.step hnext).leads_of_releasing (setPhase_phase_self s t _))

theorem leads_of_closing (h : Good s) (hp : s.phase t = .closing) : Leads (Freed s t) s := by
  have hnext : Next s (.advance t) { s.setPhase t .forgetting with closed := true } := by
    simp [Next, Lifecycle.step, advance, hp]
  exact Freed.step hnext ((h.step hnext).leads_of_forgetting (setPhase_phase_self s t _))

/-- Who is going to be joined is on its way to its end, unless it waits for the lock. -/
theorem outbound (h : Good s) (hp : (s.phase t).hasRequested = true)
    (htarget : (s.phase t).target? = some u) (hu : s.phase u ≠ .stopping) : Outbound s u where
  stopped := (h.sound.fits t).read (ServePhase.hasRead_of_hasRequested hp)
  stops := by
    have hread := ServePhase.hasRead_of_hasRequested hp
    have hlock := (h.sound.fits t).lock_eq (ServePhase.holds_of_hasRead hread)
    have hholds : (s.phase u).holds = false := by
      by_contra hholds
      have hlock' := (h.sound.fits u).lock_eq (by simpa using hholds)
      rw [hlock, Option.some.injEq] at hlock'
      exact (h.sound.fits t).apart (by rw [htarget, hlock'])
    simp [ServePhase.stops, hu, hholds]
  looks := h.requested t u hp

theorem target_ne (h : Good s) (htarget : (s.phase t).target? = some u) : t ≠ u := fun htu =>
  (h.sound.fits t).apart (by rw [htarget, htu])

theorem leads_of_joining_ended (h : Good s) (hp : s.phase t = .joining u)
    (hu : s.phase u = .ended) : Leads (Freed s t) s := by
  have hnext : Next s (.advance t) (s.setPhase t .closing) := by
    simp [Next, Lifecycle.step, advance, hp, hu]
  exact Freed.step hnext ((h.step hnext).leads_of_closing (setPhase_phase_self s t _))

theorem leads_of_joining (h : Good s) (hp : s.phase t = .joining u) (hu : s.phase u ≠ .stopping) :
    Leads (Freed s t) s := by
  have htarget : (s.phase t).target? = some u := by rw [hp]; rfl
  have hout := h.outbound (by rw [hp]; rfl) htarget hu
  refine (leads_ended h hout).trans fun v hv => ?_
  have hpv : v.phase t = .joining u := by rw [hv.others t (h.target_ne htarget), hp]
  exact (hv.good.leads_of_joining_ended hpv hv.ended).mono fun w hw =>
    hw.cons fun x _ hx => hv.stays hout hx

/-- Once no thread serves, `shutdown` has nothing to wait for. -/
theorem leads_of_awaiting_set {target : Option Thread} (h : Good s)
    (hp : s.phase t = .awaiting target) (hset : s.isShutDown = true)
    (hu : ∀ u, target = some u → s.phase u ≠ .stopping) : Leads (Freed s t) s := by
  have hnext : Next s (.advance t) (s.setPhase t (afterShutdown target)) := by
    simp [Next, Lifecycle.step, advance, hp, hset]
  refine Freed.step hnext ?_
  have hgood := h.step hnext
  cases target with
  | none => exact hgood.leads_of_closing (setPhase_phase_self s t _)
  | some u =>
    have hut : t ≠ u := h.target_ne (by rw [hp]; rfl)
    refine hgood.leads_of_joining (setPhase_phase_self s t _) ?_
    rw [setPhase_phase, if_neg hut.symm]
    exact hu u rfl

/-- The event is set once the thread that is going to be joined has ended. -/
theorem isShutDown_of_ended {target : Option Thread} (h : Good s)
    (hp : s.phase t = .awaiting target) (hu : ∀ u, target = some u → s.phase u = .ended) :
    s.isShutDown = true := by
  have ht := h.sound.fits t
  rw [hp] at ht
  refine (ht.asked rfl).resolve_right fun hserver => ?_
  obtain ⟨u, hserver⟩ := Option.ne_none_iff_exists'.mp hserver
  exact (h.sound.fits u).server_ne (by rw [hu u (ht.target rfl u hserver)]; rfl) hserver

theorem leads_of_awaiting {target : Option Thread} (h : Good s) (hp : s.phase t = .awaiting target)
    (hu : ∀ u, target = some u → s.phase u ≠ .stopping) : Leads (Freed s t) s := by
  cases target with
  | none =>
    exact h.leads_of_awaiting_set hp (h.isShutDown_of_ended hp fun u hu => by cases hu) hu
  | some u =>
    have htarget : (s.phase t).target? = some u := by rw [hp]; rfl
    have hout := h.outbound (by rw [hp]; rfl) htarget (hu u rfl)
    refine (leads_ended h hout).trans fun v hv => ?_
    have hpv : v.phase t = .awaiting (some u) := by rw [hv.others t (h.target_ne htarget), hp]
    have hset : v.isShutDown = true := hv.good.isShutDown_of_ended hpv fun x hx => by
      cases hx
      exact hv.ended
    refine (hv.good.leads_of_awaiting_set hpv hset fun x hx => ?_).mono fun w hw =>
      hw.cons fun x _ hx => hv.stays hout hx
    cases hx
    simp [hv.ended]

theorem leads_of_requesting {target : Option Thread} (h : Good s)
    (hp : s.phase t = .requesting target) (hu : ∀ u, target = some u → s.phase u ≠ .stopping) :
    Leads (Freed s t) s := by
  have hnext : Next s (.advance t)
      { s.setPhase t (.awaiting target) with shutdownRequest := true } := by
    simp [Next, Lifecycle.step, advance, hp]
  refine Freed.step hnext
    ((h.step hnext).leads_of_awaiting (setPhase_phase_self s t _) fun u htarget => ?_)
  have hut : u ≠ t := fun hut => h.target_ne (by rw [hp, htarget]; rfl) hut.symm
  simpa [setPhase_phase, hut] using hu u htarget

/-- Nobody that `stop` finds for its `join` waits for the lock then. -/
theorem ne_stopping_of_joinTarget (h : Good s) (hu : s.joinTarget t = some u) :
    s.phase u ≠ .stopping := fun hp => by
  have hfits := h.sound.fits u
  rw [hp] at hfits
  have hcases : s.serveThread = some u ∨ s.thread = some u := by
    unfold joinTarget at hu
    split at hu
    · exact .inl hu
    · split at hu
      · exact .inr hu
      · cases hu
  rcases hcases with hserver | hthread
  · exact hfits.server_ne rfl hserver
  · exact hfits.caller rfl (by simp) (by simp) 0 (h.sound.thread u hthread).1

theorem leads_of_reading (h : Good s) (hp : s.phase t = .reading) : Leads (Freed s t) s := by
  have hnext : Next s (.advance t) { s.setPhase t (if s.serving then .requesting (s.joinTarget t)
      else afterShutdown (s.joinTarget t)) with stopped := true } := by
    simp [Next, Lifecycle.step, advance, hp]
  have hgood := h.step hnext
  have hself := setPhase_phase_self s t (if s.serving then .requesting (s.joinTarget t)
    else afterShutdown (s.joinTarget t))
  have hwaits : ∀ (p : ServePhase) u, s.joinTarget t = some u →
      Function.update s.phase t p u ≠ .stopping := fun p u hu => by
    have hut : u ≠ t := fun hut => joinTarget_ne s t (by rw [hu, hut])
    rw [Function.update_of_ne hut]
    exact h.ne_stopping_of_joinTarget hu
  refine Freed.step hnext ?_
  cases hserving : s.serving with
  | true =>
    rw [hserving, if_pos rfl] at hself hgood
    exact hgood.leads_of_requesting hself (hwaits _)
  | false =>
    rw [hserving, if_neg (by simp)] at hself hgood
    cases htarget : s.joinTarget t with
    | none =>
      rw [htarget] at hself hgood
      exact hgood.leads_of_closing hself
    | some u =>
      rw [htarget] at hself hgood
      exact hgood.leads_of_joining hself (hwaits _ u htarget)

/-- The holder of the lock can return. -/
theorem leads_of_holds (h : Good s) (hp : (s.phase t).holds = true) (hdead : ¬Deadlocked s) :
    Leads (Freed s t) s := by
  have htarget : ∀ u, (s.phase t).target? = some u → s.phase u ≠ .stopping := fun u hu hstop =>
    hdead ⟨t, u, hu, hstop⟩
  cases hphase : s.phase t with
  | reading => exact h.leads_of_reading hphase
  | requesting target =>
    exact h.leads_of_requesting hphase fun u hu => htarget u (by rw [hphase]; exact hu)
  | awaiting target =>
    exact h.leads_of_awaiting hphase fun u hu => htarget u (by rw [hphase]; exact hu)
  | joining u => exact h.leads_of_joining hphase (htarget u (by rw [hphase]; rfl))
  | closing => exact h.leads_of_closing hphase
  | forgetting => exact h.leads_of_forgetting hphase
  | releasing => exact h.leads_of_releasing hphase
  | idle | ended | starting | entering | opening | polling | resetting | signalling | leaving
  | stopping =>
    rw [hphase] at hp
    cases hp

/-- Who waits for the lock can take it once it is free. -/
theorem leads_of_stopping (h : Good s) (hp : s.phase t = .stopping) (hlock : s.stopLock = none) :
    Leads (Freed s t) s := by
  have hnext : Next s (.advance t) { s.setPhase t .reading with stopLock := some t } := by
    simp [Next, Lifecycle.step, advance, hp, hlock]
  exact Freed.step hnext ((h.step hnext).leads_of_reading (setPhase_phase_self s t _))

theorem leads_of_stops (h : Good s) (hp : (s.phase t).stops = true) (hdead : ¬Deadlocked s) :
    Leads (fun v => v.phase t = after t) s := by
  simp only [ServePhase.stops, Bool.or_eq_true, decide_eq_true_eq] at hp
  rcases hp with hp | hp
  · cases hlock : s.stopLock with
    | none => exact (h.leads_of_stopping hp hlock).mono fun v hv => hv.back
    | some x =>
      -- the holder returns first
      have hx : (s.phase x).holds = true := (h.sound.fits x).holder.mpr hlock
      have hxt : t ≠ x := fun hxt => by
        rw [← hxt, hp] at hx
        cases hx
      refine (h.leads_of_holds hx hdead).trans fun v hv => ?_
      exact (hv.good.leads_of_stopping (hv.waits t hxt hp) hv.lock).mono fun w hw => hw.back
  · exact (h.leads_of_holds hp hdead).mono fun v hv => hv.back

/-- Only threads of the program call `stop`. -/
theorem exists_caller (h : Good s) (hp : (s.phase t).stops = true) : ∃ i, t = .caller i := by
  cases t with
  | caller i => exact ⟨i, rfl⟩
  | gui k =>
    refine absurd rfl ((h.sound.fits (.gui k)).caller ?_ ?_ ?_ k)
    all_goals cases hphase : s.phase (.gui k) <;>
      simp_all [ServePhase.stops, ServePhase.holds, ServePhase.serves]

theorem leads_idle (h : Good s) (hp : (s.phase t).stops = true) (hdead : ¬Deadlocked s) :
    Leads (fun v => v.phase t = .idle) s := by
  obtain ⟨i, rfl⟩ := h.exists_caller hp
  exact h.leads_of_stops hp hdead

end Good

/-! ## A deadlock lasts -/

/-- A step of `x` moves nobody else who is alive. -/
theorem Moves.phase_of_ne (hm : Moves s x s') (hs : Sound s) (htx : t ≠ x)
    (hp : s.phase t ≠ .ended) : s'.phase t = s.phase t := by
  cases hm with
  | starts hx hthread hstopped =>
    have hgui : t ≠ .gui s.made := fun hgui => hp (by
      rw [hgui]
      exact (hs.fits _).unmade s.made rfl (Nat.le_refl _))
    simp [setPhase_phase, htx, hgui]
  | polls => rfl
  | _ => simp [setPhase_phase, htx]

/-- Who waits for the lock goes on waiting while it is held. -/
theorem Moves.stopping (hm : Moves s x s') (hs : Sound s) (hlock : s.stopLock ≠ none)
    (hp : s.phase t = .stopping) : s'.phase t = .stopping := by
  by_cases htx : t = x
  · subst htx
    cases hm with
    | locks hx hnone => exact absurd hnone hlock
    | refused hx => simp [hp] at hx
    | _ => simp_all
  · rw [hm.phase_of_ne hs htx (by simp [hp]), hp]

/-- Thread `t` is going to join `u`, which waits for the lock that `t` holds. -/
structure Locked (t u : Thread) (s : Lifecycle) : Prop where
  target : (s.phase t).target? = some u
  waits : s.phase u = .stopping
  lock : s.stopLock = some t

theorem Locked.moves (h : Locked t u s) (hs : Sound s) (hm : Moves s x s') : Locked t u s' := by
  have hwaits := hm.stopping hs (by rw [h.lock]; simp) h.waits
  have htarget := h.target
  by_cases htx : t = x
  · subst htx
    cases hm with
    | requests hp =>
      rw [hp] at htarget
      exact ⟨by simpa [ServePhase.target?] using htarget, hwaits, h.lock⟩
    | awaits hp hset =>
      rw [hp] at htarget
      refine ⟨?_, hwaits, h.lock⟩
      rw [setPhase_phase_self, target?_afterShutdown]
      exact htarget
    | joins hp hended =>
      rw [hp] at htarget
      cases htarget
      rw [h.waits] at hended
      cases hended
    | polls hp hrequest => exact h
    | refused hp => rcases hp with hp | hp <;> · rw [hp] at htarget; cases htarget
    | calls hp | finishes hp | interrupted hp | starts hp hthread hstopped
    | enters hp hstopped hserving | opens hp | ends hp hrequest | resets hp | signals hp
    | leaves hp | locks hp hlock | reads hp | closes hp | forgets hp | releases hp =>
      rw [hp] at htarget
      cases htarget
  -- another thread moves: it can neither take the lock nor be the one that releases it
  · have hphase := hm.phase_of_ne hs htx fun hp => by
      rw [hp] at htarget
      cases htarget
    refine ⟨by rw [hphase, htarget], hwaits, ?_⟩
    cases hm with
    | locks hp hlock =>
      rw [h.lock] at hlock
      cases hlock
    | releases hp =>
      have hlock := (hs.fits x).lock_eq (by rw [hp]; rfl)
      rw [h.lock, Option.some.injEq] at hlock
      exact absurd hlock htx
    | _ => exact h.lock

theorem Locked.stops (h : Locked t u s) (hs : Sound s) (hp : (s.phase x).stops = true) :
    x = t ∨ s.phase x = .stopping := by
  simp only [ServePhase.stops, Bool.or_eq_true, decide_eq_true_eq] at hp
  refine hp.symm.imp_left fun hp => ?_
  have hlock := (hs.fits x).lock_eq hp
  rw [h.lock, Option.some.injEq] at hlock
  exact hlock.symm

/-- In a deadlock nobody gets out of `stop`. -/
theorem Locked.run (h : Locked t u s) (hs : Sound s) (hp : (s.phase x).stops = true)
    (hrun : Runs Next s fs v) : (v.phase x).stops = true := by
  have hinv := Runs.invariant
    (I := fun v => Sound v ∧ Locked t u v ∧ (x = t ∨ v.phase x = .stopping))
    (fun v e w hv hnext => ⟨hv.1.step hnext, hv.2.1.moves hv.1 (moves_of_step hnext),
      hv.2.2.imp_right ((moves_of_step hnext).stopping hv.1 (by rw [hv.2.1.lock]; simp))⟩)
    hrun ⟨hs, h, h.stops hs hp⟩
  obtain ⟨-, hlocked, rfl | hx⟩ := hinv
  · simp [ServePhase.stops,
      ServePhase.holds_of_hasRead (ServePhase.hasRead_of_target? hlocked.target)]
  · simp [hx, ServePhase.stops]

theorem Deadlocked.exists_locked (h : Deadlocked s) (hs : Sound s) : ∃ t u, Locked t u s := by
  obtain ⟨t, u, htarget, hu⟩ := h
  have hholds := ServePhase.holds_of_hasRead (ServePhase.hasRead_of_target? htarget)
  exact ⟨t, u, htarget, hu, (hs.fits t).lock_eq hholds⟩

/-! ## The results -/

/-- **When `stop` can return.** Whatever was called before, a call of `stop`
can return by steps of the threads alone, unless who holds `_stop_lock` is going
to join a thread that waits for it; then no call of `stop` ever returns. -/
theorem stop_returns_unless_deadlocked (hrun : Runs Next fresh es s)
    (hp : (s.phase t).stops = true) :
    (¬Deadlocked s → Leads (fun v => v.phase t = .idle) s) ∧
      (Deadlocked s → ∀ fs v, Runs Next s fs v → (v.phase t).stops = true) := by
  have hgood := Good.run hrun
  constructor
  · exact hgood.leads_idle hp
  · intro hdead fs v hfs
    obtain ⟨x, u, hlocked⟩ := hdead.exists_locked hgood.sound
    exact hlocked.run hgood.sound hp hfs

/-! ### Threads that only serve or only stop -/

theorem Moves.phase_caller {i : Nat} (hm : Moves s t s') (ht : .caller i ≠ t) :
    s'.phase (.caller i) = s.phase (.caller i) := by
  cases hm with
  | polls => rfl
  | _ => simp [setPhase_phase, ht]

/-- What the calls so far say about a thread of the program in phase `p`. -/
structure Called (es : List ServerEvent) (i : Nat) (p : ServePhase) : Prop where
  serves : p = .entering ∨ p.serves = true → .call (.caller i) .serveForever ∈ es
  stops : p.stops = true → .call (.caller i) .stop ∈ es
  target : ∀ j, p.target? = some (.caller j) → .call (.caller j) .serveForever ∈ es

namespace Called

variable {i : Nat} {p q : ServePhase}

theorem mono {e : ServerEvent} (h : Called es i p) : Called (es ++ [e]) i p where
  serves hp := List.mem_append_left _ (h.serves hp)
  stops hp := List.mem_append_left _ (h.stops hp)
  target j hp := List.mem_append_left _ (h.target j hp)

theorem outside (hserves : p.serves = false) (hentering : p ≠ .entering)
    (hstops : p.stops = false) : Called es i p where
  serves hp := by simp [hserves, hentering] at hp
  stops hp := by simp [hstops] at hp
  target j hp := by
    have hholds := ServePhase.holds_of_hasRead (ServePhase.hasRead_of_target? hp)
    simp [ServePhase.stops, hholds] at hstops

theorem after (t : Thread) : Called es i (Lifecycle.after t) :=
  outside (by cases t <;> rfl) (by cases t <;> simp [Lifecycle.after]) (stops_after t)

theorem entry (c : ServerCall) : Called (es ++ [.call (.caller i) c]) i c.entry := by
  cases c with
  | start => exact outside rfl (by simp [ServerCall.entry]) rfl
  | serveForever => exact ⟨fun _ => by simp, (fun h => by cases h), fun j h => by cases h⟩
  | stop => exact ⟨fun h => by simp [ServerCall.entry, ServePhase.serves] at h, fun _ => by simp,
      fun j h => by cases h⟩

/-- The next phase of `serve_forever`. -/
theorem serving (h : Called es i p) (hp : p = .entering ∨ p.serves = true) (hq : q.serves = true) :
    Called es i q where
  serves _ := h.serves hp
  stops hstops := by cases q <;> simp_all [ServePhase.serves, ServePhase.stops, ServePhase.holds]
  target j htarget := by cases q <;> simp_all [ServePhase.serves, ServePhase.target?]

/-- The next phase of `stop`. -/
theorem stopping (h : Called es i p) (hp : p.stops = true) (hq : q.holds = true)
    (htarget : ∀ j, q.target? = some (.caller j) → .call (.caller j) .serveForever ∈ es) :
    Called es i q where
  serves hserves := by cases q <;> simp_all [ServePhase.serves, ServePhase.holds]
  stops _ := h.stops hp
  target := htarget

/-- The calls of all threads of the program. -/
def All (es : List ServerEvent) (s : Lifecycle) : Prop :=
  ∀ i, Called es i (s.phase (.caller i))

theorem All.joinTarget {j : Nat} (h : All es s) (hs : Sound s)
    (htarget : s.joinTarget t = some (.caller j)) : .call (.caller j) .serveForever ∈ es := by
  unfold Lifecycle.joinTarget at htarget
  split at htarget
  · exact (h j).serves (.inr ((hs.fits _).server.mpr htarget))
  · split at htarget
    · cases (hs.thread _ htarget).1
    · cases htarget

/-- The steps of thread `i` in its call. -/
theorem own (h : All es s) (hs : Sound s) (hm : Moves s (.caller i) s')
    (hcall : s.phase (.caller i) ≠ .idle) : Called es i (s'.phase (.caller i)) := by
  have hi := h i
  cases hm with
  | calls hp | finishes hp => exact absurd hp hcall
  | interrupted hp | ends hp | resets hp | signals hp | opens hp =>
    rw [hp] at hi
    simpa [setPhase_phase] using hi.serving (.inr rfl) rfl
  | enters hp hstopped hserving =>
    rw [hp] at hi
    simpa [setPhase_phase] using hi.serving (.inl rfl) rfl
  | refused hp | leaves hp | releases hp | starts hp hthread hstopped =>
    simpa [setPhase_phase] using Called.after (.caller i)
  | polls hp => exact hi
  | locks hp hlock =>
    rw [hp] at hi
    simpa [setPhase_phase] using hi.stopping (q := .reading) rfl rfl fun j h => by cases h
  | reads hp =>
    rw [hp] at hi
    -- the stop asks for the thread that it found serving
    have htarget : ∀ {q : ServePhase}, q.holds = true → q.target? = s.joinTarget (.caller i) →
        Called es i q := fun hq htarget =>
      hi.stopping rfl hq fun j hj => h.joinTarget hs (by rw [← htarget, hj])
    rw [setPhase_phase_self]
    split
    · exact htarget rfl rfl
    · exact htarget (holds_afterShutdown _) (target?_afterShutdown _)
  | @requests target hp =>
    rw [hp] at hi
    simpa [setPhase_phase] using hi.stopping (q := .awaiting target) rfl rfl hi.target
  | awaits hp hset =>
    rw [hp] at hi
    rw [setPhase_phase_self]
    exact hi.stopping rfl (holds_afterShutdown _) fun j hj =>
      hi.target j (by rwa [target?_afterShutdown] at hj)
  | joins hp hended =>
    rw [hp] at hi
    simpa [setPhase_phase] using hi.stopping (q := .closing) rfl rfl fun j h => by cases h
  | closes hp =>
    rw [hp] at hi
    simpa [setPhase_phase] using hi.stopping (q := .forgetting) rfl rfl fun j h => by cases h
  | forgets hp =>
    rw [hp] at hi
    simpa [setPhase_phase] using hi.stopping (q := .releasing) rfl rfl fun j h => by cases h

theorem All.step {e : ServerEvent} (h : All es s) (hs : Sound s) (hnext : Next s e s') :
    All (es ++ [e]) s' := fun i => by
  by_cases hi : .caller i = actor e
  · cases e with
    | call t c =>
      obtain ⟨hp, rfl⟩ : s.phase t = .idle ∧ s.setPhase t c.entry = s' := by
        simpa [Next, Lifecycle.step] using hnext
      cases hi
      rw [setPhase_phase_self]
      exact entry c
    | finish t =>
      obtain ⟨hp, rfl⟩ : s.phase t = .idle ∧ s.setPhase t .ended = s' := by
        simpa [Next, Lifecycle.step] using hnext
      cases hi
      rw [setPhase_phase_self]
      exact outside rfl (by simp) rfl
    | advance t | interrupt t =>
      cases hi
      refine (own h hs (moves_of_step hnext) fun hp => ?_).mono
      simp [Next, Lifecycle.step, advance, hp] at hnext
  · rw [(moves_of_step hnext).phase_caller hi]
    exact (h i).mono

theorem All.run (h : Runs Next fresh es s) : All es s := by
  have hinv := Runs.invariant_history (I := fun es s => Sound s ∧ All es s)
    (fun es s e s' hs hnext => ⟨hs.1.step hnext, hs.2.step hs.1 hnext⟩) h
    ⟨Sound.fresh, fun i => outside rfl (by simp [fresh]) rfl⟩
  exact hinv.2

end Called

/-- **`stop` can return where nobody who served stops.** If no thread of the
program calls both `serve_forever` and `stop`, every call of `stop` can return. -/
theorem stop_returns_of_apart (hrun : Runs Next fresh es s)
    (hapart : ∀ t, .call t .serveForever ∈ es → .call t .stop ∉ es)
    (hp : (s.phase t).stops = true) : Leads (fun v => v.phase t = .idle) s := by
  have hgood := Good.run hrun
  refine hgood.leads_idle hp fun ⟨x, u, htarget, hu⟩ => ?_
  have hstops : (s.phase u).stops = true := by rw [hu]; rfl
  have hholds := ServePhase.holds_of_hasRead (ServePhase.hasRead_of_target? htarget)
  obtain ⟨i, rfl⟩ := hgood.exists_caller hstops
  obtain ⟨j, rfl⟩ := hgood.exists_caller (t := x) (by simp [ServePhase.stops, hholds])
  have hcalled := Called.All.run hrun
  exact hapart _ ((hcalled j).target i htarget) ((hcalled i).stops hstops)

/-! ### The server is closed for good -/

/-- What `stop` leaves behind. -/
structure Shut (s : Lifecycle) : Prop where
  stopped : s.stopped = true
  closed : s.closed = true
  thread : s.thread = none

theorem Shut.moves (h : Shut s) (hm : Moves s t s') : Shut s' := by
  cases hm with
  | starts hp hthread hstopped =>
    rw [h.stopped] at hstopped
    cases hstopped
  | reads => exact ⟨rfl, h.closed, h.thread⟩
  | closes => exact ⟨h.stopped, rfl, h.thread⟩
  | forgets => exact ⟨h.stopped, h.closed, rfl⟩
  | polls => exact h
  | _ => exact ⟨h.stopped, h.closed, h.thread⟩

/-- What the last phases of `stop` find. -/
structure Parting (s : Lifecycle) (p : ServePhase) : Prop where
  closed : p = .forgetting → s.closed = true
  shut : p = .releasing → Shut s

theorem Moves.phase_of_ne_entering (hm : Moves s x s') (htx : t ≠ x)
    (hp : s'.phase t ≠ .entering) : s'.phase t = s.phase t := by
  cases hm with
  | starts hx hthread hstopped =>
    have hgui : t ≠ .gui s.made := fun hgui => hp (by
      rw [setPhase_phase, if_neg htx, setPhase_phase, if_pos hgui])
    simp [setPhase_phase, htx, hgui]
  | polls => rfl
  | _ => simp [setPhase_phase, htx]

theorem parting_of_ne {p : ServePhase} (hclosed : p ≠ .forgetting) (hshut : p ≠ .releasing) :
    Parting s p :=
  ⟨fun hp => absurd hp hclosed, fun hp => absurd hp hshut⟩

theorem parting_after : Parting s (after t) :=
  parting_of_ne (by cases t <;> simp [after]) (by cases t <;> simp [after])

theorem parting_afterShutdown {target : Option Thread} : Parting s (afterShutdown target) :=
  parting_of_ne (by cases target <;> simp [afterShutdown])
    (by cases target <;> simp [afterShutdown])

theorem Parting.moves (h : ∀ x, Parting s (s.phase x)) (hs : Sound s) (hm : Moves s t s') :
    Parting s' (s'.phase x) := by
  by_cases hx : x = t
  · subst hx
    have hpart := h x
    cases hm with
    | @calls c hp =>
      rw [setPhase_phase_self]
      exact parting_of_ne (by cases c <;> simp [ServerCall.entry])
        (by cases c <;> simp [ServerCall.entry])
    | refused hp => rw [setPhase_phase_self]; exact parting_after
    | starts | leaves | releases => rw [setPhase_phase_self]; exact parting_after
    | polls => exact hpart
    | reads =>
      rw [setPhase_phase_self]
      split
      · exact parting_of_ne (by simp) (by simp)
      · exact parting_afterShutdown
    | awaits => rw [setPhase_phase_self]; exact parting_afterShutdown
    | closes hp =>
      rw [setPhase_phase_self]
      exact ⟨fun _ => rfl, fun h => by cases h⟩
    | forgets hp =>
      rw [setPhase_phase_self]
      refine ⟨(fun h => by cases h), fun _ => ⟨?_, hpart.closed hp, rfl⟩⟩
      exact (hs.fits x).read (by rw [hp]; rfl)
    | finishes | interrupted | ends | enters | opens | resets | signals | locks | requests
    | joins =>
      rw [setPhase_phase_self]
      exact parting_of_ne (by simp) (by simp)
  -- no other thread opens the socket again or undoes what `stop` has done
  · constructor
    · intro hp
      have hclosed := (h x).closed (by rw [← hm.phase_of_ne_entering hx (by simp [hp]), hp])
      cases hm with
      | closes => rfl
      | _ => exact hclosed
    · intro hp
      exact ((h x).shut (by rw [← hm.phase_of_ne_entering hx (by simp [hp]), hp])).moves hm

theorem shut_of_releasing (hrun : Runs Next fresh es s) (hp : s.phase t = .releasing) : Shut s := by
  have hinv := Runs.invariant (I := fun s => Sound s ∧ ∀ x, Parting s (s.phase x))
    (fun s e s' hs hnext => ⟨hs.1.step hnext, fun x => .moves hs.2 hs.1 (moves_of_step hnext)⟩) hrun
    ⟨Sound.fresh, fun x => by cases x <;> exact parting_of_ne (by simp [fresh]) (by simp [fresh])⟩
  exact (hinv.2 t).shut hp

theorem Sound.serves_of_none (h : Sound s) (hserver : s.serveThread = none) (t : Thread) :
    (s.phase t).serves = false := by
  by_contra hserves
  have := (h.fits t).server_eq (by simpa using hserves)
  rw [hserver] at this
  cases this

/-- **One loop, and none on a closed server.** Whatever threads call `start`,
`serve_forever` and `stop` in whatever order: at most one of them serves; once the
server is closed none does; and once a `stop` has returned the GUI stays stopped
and closed, with no thread of its own. -/
theorem serves_safely (hrun : Runs Next fresh es s) :
    (∀ t u, (s.phase t).serves = true → (s.phase u).serves = true → t = u) ∧
      (s.closed = true → ∀ t, (s.phase t).serves = false) ∧
      ∀ t, s.phase t = .releasing → ∀ fs v, Runs Next s fs v →
        v.closed = true ∧ v.stopped = true ∧ v.thread = none ∧ v.serving = false ∧
          ∀ u, (v.phase u).serves = false := by
  have hsound := Sound.run hrun
  refine ⟨fun t u ht hu => ?_, fun hclosed t => ?_, fun t hp fs v hfs => ?_⟩
  · have ht := (hsound.fits t).server_eq ht
    rw [(hsound.fits u).server_eq hu, Option.some.injEq] at ht
    exact ht.symm
  · exact hsound.serves_of_none (hsound.closed hclosed).2 t
  · have hshut : Shut v := Runs.invariant (fun _ _ _ hs hnext => hs.moves (moves_of_step hnext)) hfs
      (shut_of_releasing hrun hp)
    have hv := Sound.run (hrun.append hfs)
    have hserver := (hv.closed hshut.closed).2
    exact ⟨hshut.closed, hshut.stopped, hshut.thread, by rw [hv.serving, hserver]; rfl,
      hv.serves_of_none hserver⟩

/-! ### A server in the foreground -/

/-- Thread 0 serves; thread 1 calls `stop` and gets as far as its `join`. -/
def foreground : List ServerEvent :=
  [.call (.caller 0) .serveForever, .advance (.caller 0), .advance (.caller 0),
    .call (.caller 1) .stop, .advance (.caller 1), .advance (.caller 1), .advance (.caller 1),
    .advance (.caller 0), .advance (.caller 0), .advance (.caller 0), .advance (.caller 1)]

theorem foreground_runs : (foreground.foldlM step fresh).isSome = true := by decide

theorem serves_safely_foreground :
    let s := (foreground.foldlM step fresh).get foreground_runs
    ∀ t u, (s.phase t).serves = true → (s.phase u).serves = true → t = u :=
  (serves_safely (Runs.iff_foldlM.mpr (Option.some_get foreground_runs).symm)).1

theorem stop_returns_of_apart_foreground :
    Leads (fun v => v.phase (.caller 1) = .idle)
      ((foreground.foldlM step fresh).get foreground_runs) := by
  refine stop_returns_of_apart (Runs.iff_foldlM.mpr (Option.some_get foreground_runs).symm)
    (fun t hserve => ?_) (by decide)
  obtain rfl : t = .caller 0 := by simpa [foreground] using hserve
  decide

/-- Thread 0 runs `with KernelGUI(kernel) as gui: gui.serve_forever()`; the `stop`
of thread 1 lets it out of the loop and into `__exit__`. -/
def withBlock : List ServerEvent :=
  foreground ++ [.advance (.caller 0), .call (.caller 0) .stop]

theorem withBlock_runs : (withBlock.foldlM step fresh).isSome = true := by decide

/-- Neither call of `stop` ever returns. -/
theorem stop_returns_unless_withBlock :
    Deadlocked ((withBlock.foldlM step fresh).get withBlock_runs) ∧
      ∀ fs v, Runs Next ((withBlock.foldlM step fresh).get withBlock_runs) fs v →
        (v.phase (.caller 0)).stops = true := by
  have hdead : Deadlocked ((withBlock.foldlM step fresh).get withBlock_runs) :=
    ⟨.caller 1, .caller 0, by decide, by decide⟩
  exact ⟨hdead, (stop_returns_unless_deadlocked
    (Runs.iff_foldlM.mpr (Option.some_get withBlock_runs).symm) (by decide)).2 hdead⟩

end Lifecycle

end TitoOS
