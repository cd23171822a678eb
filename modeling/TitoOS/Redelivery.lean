import TitoOS.Script

/-!
# What a restart redelivers

The inbox drained for a step is one list: the kernel keeps it for supervision
and the step works on it as `ctx.inbox`. When the step fails and is restarted,
the list goes back to the front of the mailbox as the step left it, not as it
was drained (`redelivers_iff`).

A mailbox that is there all through a tick gains what the tick delivers to it
and nothing else (`TickState.box_exec`), whatever the agents do. At the barrier
a restart that is made puts the inbox back (`Kernel.box_superviseAll`), even if
a later hook raises; one that is not made puts nothing back.
-/

namespace TitoOS

variable {σ : Type}

/-! ## A mailbox during a tick -/

/-- An action that leaves the mailbox of `x` standing appends to it what it
delivers to `x`. -/
theorem Effect.box {k k' : Kernel σ} {ref : Nat} {name x : String} {r : Bool}
    {out : List Delivery} {fails : List (String × Exc)} (h : Effect k ref name r out fails k')
    (hx : x ∈ k.bus.mailboxes.keys) (hx' : x ∈ k'.bus.mailboxes.keys) :
    k'.bus.mailboxes.get? x = (k.bus.mailboxes.get? x).map (· ++ deliveredTo x out) := by
  obtain ⟨mailbox, hbox⟩ := Dict.mem_keys_iff.mp hx
  cases h with
  | quiet | own | fail | popAgent => simp [Kernel.recordFailure, Kernel.setState, Kernel.popAgent]
  | send m bus hm hsend => exact MessageBus.get?_send hsend x
  | register a p hnew =>
    show (k.bus.register a.name).mailboxes.get? x = _
    rw [MessageBus.get?_register, hbox]
    by_cases hxa : x = a.name
    · simp [hxa ▸ hbox]
    · simp [hxa]
  | dropMailbox n =>
    have hxn : x ≠ n := by
      rintro rfl
      simp [Kernel.dropMailbox, Dict.mem_keys_iff] at hx'
    simp [Kernel.dropMailbox, hxn]

namespace TickState

/-- A mailbox that is there all through a schedule grows by what the schedule
delivers to it. -/
theorem box_exec (code : AgentCode σ) (async : Bool) {x : String} (sched : List Nat)
    {t : TickState σ}
    (hx : ∀ n ≤ sched.length,
      x ∈ (t.exec code async (sched.take n)).kernel.bus.mailboxes.keys) :
    (t.exec code async sched).kernel.bus.mailboxes.get? x
      = (t.kernel.bus.mailboxes.get? x).map (· ++ deliveredTo x (t.log code async sched)) := by
  induction sched generalizing t with
  | nil =>
    show t.kernel.bus.mailboxes.get? x = _
    simp [log]
  | cons i rest ih =>
    have hrest := ih (t := t.advance code async i) fun n hn =>
      hx (n + 1) (Nat.succ_le_succ hn)
    -- one action, with the mailbox there before and after it
    have hmove : (t.advance code async i).kernel.bus.mailboxes.get? x
        = (t.kernel.bus.mailboxes.get? x).map (· ++ deliveredTo x (t.deliveries i)) := by
      cases hi : t.jobs[i]? with
      | none => simp [advance_of_none hi, deliveries, hi]
      | some job =>
        have heff := t.kernel.moveJob_effect code async job (r := true) (by simp)
        have hx1 : x ∈ (t.advance code async i).kernel.bus.mailboxes.keys := by
          simpa [exec, Schedule.exec] using hx 1 (by simp)
        rw [kernel_advance hi] at hx1 ⊢
        rw [heff.box (hx 0 (Nat.zero_le _)) hx1]
        simp [deliveries, hi]
    show ((t.advance code async i).exec code async rest).kernel.bus.mailboxes.get? x = _
    have hlog : t.log code async (i :: rest)
        = t.deliveries i ++ (t.advance code async i).log code async rest :=
      Schedule.emitted_cons ..
    rw [hrest, hmove, hlog, Option.map_map]
    simp [Function.comp_def]

end TickState

/-! ## A mailbox at the barrier -/

namespace Kernel

variable {code : AgentCode σ} {k : Kernel σ} {before after : List (Job σ)} {job : Job σ}

theorem superviseAll_append (code : AgentCode σ) (l m : List (Job σ)) (k : Kernel σ) :
    k.superviseAll code (l ++ m) = match k.superviseAll code l with
      | (u, .error e) => (u, .error e)
      | (u, .ok names) => match u.superviseAll code m with
        | (v, .error e) => (v, .error e)
        | (v, .ok names') => (v, .ok (names ++ names')) := by
  induction l generalizing k with
  | nil =>
    simp only [List.nil_append, superviseAll]
    generalize k.superviseAll code m = result
    obtain ⟨v, e | names⟩ := result
    · rfl
    · rfl
  | cons first rest ih =>
    rw [List.cons_append, superviseAll, superviseAll]
    generalize k.supervise code first = supervised
    obtain ⟨u, e | restarted⟩ := supervised
    · rfl
    · simp only [ih]
      generalize u.superviseAll code rest = result
      obtain ⟨v, e | names⟩ := result
      · rfl
      · simp only
        generalize v.superviseAll code m = result
        obtain ⟨w, e | names'⟩ := result
        · rfl
        · cases restarted <;> rfl

/-- The supervision pass leaves the mailboxes of all others alone. -/
theorem box_superviseAll_of_ne {jobs : List (Job σ)} {x : String}
    (hobject : ∀ job ∈ jobs, ∀ a, k.objects[job.ref]? = some a → a.name ≠ x) :
    (k.superviseAll code jobs).1.bus.mailboxes.get? x = k.bus.mailboxes.get? x := by
  refine (superviseAll_induction (P := fun u : Kernel σ =>
    u.bus.mailboxes.get? x = k.bus.mailboxes.get? x
      ∧ ∀ (i : Nat) (a : Agent σ), u.objects[i]? = some a →
          ∃ b : Agent σ, k.objects[i]? = some b ∧ b.name = a.name)
    (fun u job hjob ⟨hbox, hnames⟩ => ?_) ⟨rfl, fun i a ha => ⟨a, ha, rfl⟩⟩).1
  have hkept := Kept.supervise code u job
  constructor
  · unfold supervise
    cases ho : u.objects[job.ref]? with
    | none => exact hbox
    | some a =>
      obtain ⟨b, hb, hname⟩ := hnames _ a ho
      have hne : x ≠ a.name := fun heq => hobject job hjob b hb (hname.trans heq.symm)
      simp only
      split
      · split
        · exact hbox
        · simpa [hne] using hbox
      · exact hbox
  · intro i a ha
    rcases hkept.object i with hsame | ⟨-, b, b', hb, hb', hname, -⟩
    · exact hnames i a (hsame ▸ ha)
    · rw [ha] at hb'
      cases hb'
      obtain ⟨c, hc, hname'⟩ := hnames i b hb
      exact ⟨c, hc, hname'.trans hname.symm⟩

/-- A hook that raises puts nothing back. -/
theorem bus_supervise_error {u : Kernel σ} {e : Exc} (h : k.supervise code job = (u, .error e)) :
    u.bus = k.bus := by
  unfold supervise at h
  split at h
  · cases h
  · split at h
    · simp only at h
      split at h
      · cases h
        rfl
      · cases h
    · cases h

/-- The hooks that are called for these casualties return. -/
def HooksReturnFor (code : AgentCode σ) (k : Kernel σ) (jobs : List (Job σ)) : Prop :=
  ∀ job ∈ jobs, ∀ a, k.objects[job.ref]? = some a → mayRestart a = true → restartReturns code a

/-- Who else is a casualty has another name. -/
theorem Jobs.name_ne (hjobs : k.Jobs (before ++ job :: after)) {job' : Job σ}
    (hmem : job' ∈ before ∨ job' ∈ after) {a : Agent σ} (ha : k.objects[job'.ref]? = some a) :
    a.name ≠ job.name := by
  have hnames := hjobs.names
  rw [List.map_append, List.map_cons, List.nodup_append] at hnames
  obtain ⟨-, hafter, hdisjoint⟩ := hnames
  obtain ⟨b, hb, hname⟩ := hjobs.object job' (by rcases hmem with h | h <;> simp [h])
  rw [ha] at hb
  cases hb
  rw [hname]
  rcases hmem with hmem | hmem
  · exact hdisjoint _ (List.mem_map_of_mem hmem) _ List.mem_cons_self
  · exact fun heq => (List.nodup_cons.mp hafter).1 (heq ▸ List.mem_map_of_mem hmem)

/-- **A restart that is made** puts the inbox of the job back, whatever the hooks
after it do. -/
theorem box_superviseAll (hjobs : k.Jobs (before ++ job :: after))
    (hwill : k.willRestart job = true) (hhooks : k.HooksReturnFor code (before ++ [job])) :
    (k.superviseAll code (before ++ job :: after)).1.bus.mailboxes.get? job.name
      = (k.bus.mailboxes.get? job.name).map (job.handedBack ++ ·) := by
  have hsublist : (before ++ [job]).Sublist (before ++ job :: after) := by simp
  obtain ⟨u, names, hfirst, hsup⟩ := superviseAll_ok (hjobs.sublist hsublist) hhooks
  have hrequeued : k.requeued (before ++ [job]) job.name = job.handedBack := by
    have hnone : before.find? (fun job' => job'.name = job.name && k.willRestart job') = none := by
      rw [List.find?_eq_none]
      intro job' hmem hsame
      obtain ⟨b, hb, hname⟩ := hjobs.object job' (by simp [hmem])
      simp only [Bool.and_eq_true, decide_eq_true_eq] at hsame
      exact hjobs.name_ne (.inl hmem) hb (hname.trans hsame.1)
    simp [requeued, List.find?_append, hnone, hwill]
  have hrest : (u.superviseAll code after).1.bus.mailboxes.get? job.name
      = u.bus.mailboxes.get? job.name := by
    refine box_superviseAll_of_ne fun job' hmem b hb => ?_
    have hkept := Kept.superviseAll code (before ++ [job]) k
    rw [hfirst] at hkept
    rcases hkept.object job'.ref with hsame | ⟨-, a, a', ha, ha', hname, -⟩
    · exact hjobs.name_ne (.inr hmem) (hsame ▸ hb)
    · rw [hb] at ha'
      cases ha'
      exact hname ▸ hjobs.name_ne (.inr hmem) ha
  rw [show before ++ job :: after = (before ++ [job]) ++ after by simp, superviseAll_append, hfirst,
    ← hrequeued, ← hsup.box, ← hrest]
  simp only
  generalize u.superviseAll code after = result
  obtain ⟨v, e | names'⟩ := result
  · rfl
  · rfl

/-- **A restart that is not made** puts nothing back, and the barrier raises. -/
theorem box_superviseAll_error (hjobs : k.Jobs (before ++ job :: after))
    (hhooks : ¬ k.HooksReturnFor code (before ++ [job])) :
    ∃ u e, k.superviseAll code (before ++ job :: after) = (u, .error e)
      ∧ u.bus.mailboxes.get? job.name = k.bus.mailboxes.get? job.name := by
  have hsublist : (before ++ [job]).Sublist (before ++ job :: after) := by simp
  have hbefore : (k.superviseAll code before).1.bus.mailboxes.get? job.name
      = k.bus.mailboxes.get? job.name :=
    box_superviseAll_of_ne fun job' hmem a ha => hjobs.name_ne (.inl hmem) ha
  rw [superviseAll_append]
  cases hfirst : k.superviseAll code before with
  | mk u result =>
    rw [hfirst] at hbefore
    cases result with
    | error e => exact ⟨u, e, rfl, hbefore⟩
    | ok names =>
      simp only [superviseAll]
      cases hone : u.supervise code job with
      | mk v result =>
        cases result with
        | error e => exact ⟨v, e, rfl, by rw [bus_supervise_error hone, hbefore]⟩
        | ok restarted =>
          have hok : k.superviseAll code (before ++ [job])
              = (v, .ok (names ++ if restarted then [job.name] else [])) := by
            rw [superviseAll_append, hfirst]
            simp [superviseAll, hone]
          exact absurd (restartReturns_of_superviseAll (hjobs.sublist hsublist) hok) hhooks

/-- The escalation pass appends to mailboxes what it posts, whether or not it
raises. -/
theorem box_escalateAll (jobs : List (Job σ)) (k : Kernel σ) (x : String) :
    (k.escalateAll jobs).1.bus.mailboxes.get? x
      = (k.bus.mailboxes.get? x).map (· ++ deliveredTo x (k.escalationLog jobs)) := by
  induction jobs generalizing k with
  | nil => simp [escalateAll, escalationLog]
  | cons job rest ih =>
    rw [escalateAll, escalationLog]
    by_cases hf : k.hasFailed job.ref = true
    · simp only [hf, if_true]
      cases hn : k.notice job.ref with
      | none => simpa [escalate, hn] using ih k
      | some m =>
        cases hsend : k.bus.send m with
        | error e =>
          have hrefused : ¬ k.bus.Accepts m := fun hacc => by
            obtain ⟨bus, hok⟩ := MessageBus.send_ok_iff.mpr hacc
            rw [hsend] at hok
            cases hok
          obtain ⟨hstar, hkey⟩ := not_or.mp hrefused
          simp [escalate, hn, hsend, Except.map, MessageBus.deliveries, Message.isBroadcast, hstar,
            Dict.contains_iff, hkey]
        | ok bus =>
          have hrest := ih { k with bus }
          simp only [escalate, hn, hsend, Except.map, Option.map_some, Option.getD_some]
          rw [hrest]
          show (bus.mailboxes.get? x).map _ = _
          rw [MessageBus.get?_send hsend, Option.map_map]
          simp [Function.comp_def]
    · simpa [hf] using ih k

end Kernel

/-- The hooks that the supervision pass calls before it comes to the job, and that of
its agent, return. -/
def TickState.HooksReturnTo (code : AgentCode σ) (t : TickState σ) (job : Job σ) : Prop :=
  ∃ before after, t.casualties = before ++ job :: after
    ∧ t.kernel.HooksReturnFor code (before ++ [job])

/-- The restart of the agent of the job is made, whatever comes after it: no
`BaseException` leaves the tick, and no hook raises up to this one. -/
structure TickState.ComesToRestart (code : AgentCode σ) (b : Backend) (t : TickState σ)
    (job : Job σ) : Prop where
  returns : b.raises t = none
  hooks : t.HooksReturnTo code job

/-! ## What goes back -/

namespace Kernel

/-- The mailbox of `x` is there all through the tick: nobody takes it away. -/
def KeepsMailbox (code : AgentCode σ) (b : Backend) (sched : List Nat) (k : Kernel σ) (x : String) :
    Prop :=
  ∀ n ≤ sched.length,
    x ∈ (k.beginTick.exec code b.isAsync (sched.take n)).kernel.bus.mailboxes.keys

instance (code : AgentCode σ) (b : Backend) (sched : List Nat) (k : Kernel σ) (x : String) :
    Decidable (k.KeepsMailbox code b sched x) :=
  inferInstanceAs (Decidable (∀ n ≤ _, _))

/-- After the tick the mailbox of `x` starts with the messages drained for it, in
their order, followed by those accepted for it during the tick. -/
def Redelivers (code : AgentCode σ) (b : Backend) (loop : Bool) (sched : List Nat)
    (k k' : Kernel σ) (x : String) : Prop :=
  k'.bus.mailboxes.get? x
    = some (k.inboxOf x ++ deliveredTo x (k.stepLog code b loop sched))

instance (code : AgentCode σ) (b : Backend) (loop : Bool) (sched : List Nat) (k k' : Kernel σ)
    (x : String) : Decidable (k.Redelivers code b loop sched k' x) :=
  inferInstanceAs (Decidable (_ = _))

end Kernel

theorem Agent.SameAgent.mayRestart {a b : Agent σ} (h : a.SameAgent b) :
    Kernel.mayRestart b = Kernel.mayRestart a := by
  rw [h]
  rfl

/-- What a tick that is kept from its end has left in the mailbox of a casualty. -/
theorem InTick.box_of_error {code : AgentCode σ} {k k' : Kernel σ} {t : TickState σ}
    (hin : InTick k t) (hwf : k.Wf) {job : Job σ} (hjob : job ∈ t.jobs)
    (hfailed : job.phase.isFailed = true) (hwill : t.kernel.willRestart job = true)
    {waiting : List String} {e : Exc} (hbarrier : t.barrier code waiting = (k', .error e)) :
    (t.HooksReturnTo code job ∧ k'.bus.mailboxes.get? job.name
        = (t.kernel.bus.mailboxes.get? job.name).map fun mailbox =>
            job.handedBack ++ (mailbox ++ deliveredTo job.name (t.barrierLog code)))
      ∨ ¬ t.HooksReturnTo code job ∧ t.barrierLog code = []
        ∧ k'.bus.mailboxes.get? job.name = t.kernel.bus.mailboxes.get? job.name := by
  have hmem : job ∈ t.casualties := List.mem_filter.mpr ⟨hjob, hfailed⟩
  obtain ⟨before, after, hsplit⟩ := List.append_of_mem hmem
  have hjobs := hsplit ▸ hin.casualties hwf
  -- the job stands among the casualties once, so the hooks before it are the same
  have hcomes : t.HooksReturnTo code job
      ↔ t.kernel.HooksReturnFor code (before ++ [job]) := by
    refine ⟨fun ⟨before', after', heq, hhooks⟩ => ?_, fun hhooks => ⟨_, _, hsplit, hhooks⟩⟩
    have hnodup : t.casualties.Nodup := (hin.casualties hwf).refs.of_map
    rw [heq, List.nodup_append] at hnodup
    obtain ⟨-, hafter, hbefore⟩ := hnodup
    obtain ⟨rfl, -⟩ := (List.append_cons_inj_of_notMem
      (fun h => hbefore _ h _ List.mem_cons_self rfl) (List.nodup_cons.mp hafter).1).mp
        (heq.symm.trans hsplit)
    exact hhooks
  by_cases hhooks : t.kernel.HooksReturnFor code (before ++ [job])
  · refine .inl ⟨hcomes.mpr hhooks, ?_⟩
    have hbox := Kernel.box_superviseAll hjobs hwill hhooks
    rw [← hsplit] at hbox
    rw [TickState.barrier] at hbarrier
    rw [TickState.barrierLog]
    cases hsup : t.kernel.superviseAll code t.casualties with
    | mk u result =>
      rw [hsup] at hbarrier hbox
      cases result with
      | error e' =>
        -- a hook further on raised
        cases hbarrier
        simpa using hbox
      | ok names =>
        have hescalated := Kernel.box_escalateAll t.casualties u job.name
        simp only at hbarrier hbox ⊢
        cases hesc : u.escalateAll t.casualties with
        | mk v raised =>
          rw [hesc] at hbarrier hescalated
          cases raised with
          | none => cases hbarrier
          | some e' =>
            -- all hooks returned, and a notice to a parent was refused
            cases hbarrier
            rw [hescalated, hbox, Option.map_map]
            simp [Function.comp_def]
  · obtain ⟨u, e', hsup, hbox⟩ := Kernel.box_superviseAll_error hjobs hhooks
    rw [← hsplit] at hsup
    simp only [TickState.barrier, hsup] at hbarrier
    cases hbarrier
    exact .inr ⟨fun h => hhooks (hcomes.mp h), by simp [TickState.barrierLog, hsup], hbox⟩

/-- The hooks a barrier has called that returns have returned. -/
theorem InTick.hooksReturnTo {code : AgentCode σ} {k k' : Kernel σ} {t : TickState σ}
    (hin : InTick k t) (hwf : k.Wf) {job : Job σ} (hjob : job ∈ t.jobs)
    (hfailed : job.phase.isFailed = true) {waiting : List String} {report : TickReport}
    (hbarrier : t.barrier code waiting = (k', .ok report)) : t.HooksReturnTo code job := by
  have hmem : job ∈ t.casualties := List.mem_filter.mpr ⟨hjob, hfailed⟩
  obtain ⟨before, after, hsplit⟩ := List.append_of_mem hmem
  refine ⟨before, after, hsplit, fun job' hjob' => ?_⟩
  rw [TickState.barrier] at hbarrier
  split at hbarrier
  · cases hbarrier
  · next hsup =>
    refine Kernel.restartReturns_of_superviseAll (hin.casualties hwf) hsup job' ?_
    rw [hsplit]
    rcases List.mem_append.mp hjob' with h | h
    · exact List.mem_append_left _ h
    · simp [List.mem_singleton.mp h]

/-- What the steps of a tick have left in a mailbox that they keep. -/
theorem Kernel.box_tick {code : AgentCode σ} {k : Kernel σ} (hwf : k.Wf) {b : Backend}
    {sched : List Nat} {x : String} (hlive : k.isLive x = true)
    (hkeeps : k.KeepsMailbox code b sched x) :
    (k.beginTick.exec code b.isAsync sched).kernel.bus.mailboxes.get? x
      = some (deliveredTo x (k.beginTick.log code b.isAsync sched)) := by
  have hopen : k.beginTick.kernel.bus.mailboxes.get? x = some [] := by
    obtain ⟨mailbox, hmailbox⟩ := Dict.mem_keys_iff.mp (hkeeps 0 (Nat.zero_le _))
    rw [List.take_zero] at hmailbox
    have hmail : k.beginTick.kernel.bus.mailboxes.get? x = some mailbox := hmailbox
    rw [Kernel.beginTick_box hwf, if_pos hlive] at hmail ⊢
    cases hk : k.bus.mailboxes.get? x with
    | none =>
      rw [hk] at hmail
      cases hmail
    | some mailbox' => rfl
  rw [TickState.box_exec code b.isAsync sched hkeeps, hopen]
  simp

/-- **When a failed step gets back what it was handed**: where its restart is made,
exactly when the step left `ctx.inbox` as it was drained; elsewhere nothing is put
back, so exactly when nothing was drained. -/
theorem redelivers_iff {code : AgentCode σ} {acts : List (Act σ)} {k k' : Kernel σ}
    (hreach : Runs (Kernel.Performs code) {} acts k) {b : Backend} {loop : Bool}
    {sched : List Nat} {result : Except Exc TickReport}
    (hstep : k.stepWith code b loop sched = (k', result)) {job : Job σ}
    (hjob : job ∈ (k.tickWith code b loop sched).jobs) {calls : List Call} {left : List Message}
    (hphase : job.phase = .failed calls left) {a : Agent σ} (ha : k.objects[job.ref]? = some a)
    (hmay : Kernel.mayRestart a = true) (hkeeps : k.KeepsMailbox code b sched job.name) :
    k.Redelivers code b loop sched k' job.name
      ↔ (k.tickWith code b loop sched).ComesToRestart code b job ∧ left = k.inboxOf job.name
        ∨ ¬ (k.tickWith code b loop sched).ComesToRestart code b job
          ∧ k.inboxOf job.name = [] := by
  have hwf : k.Wf := Kernel.wf_of_performs hreach Kernel.sound_init.wf
  have haccepted : k.refused code b loop = none := by
    cases hrefused : k.refused code b loop with
    | none => rfl
    | some e =>
      -- no step of a refused tick has started
      simp only [Kernel.tickWith, hrefused] at hjob
      rw [(Kernel.object_of_mem_beginTick hjob).1] at hphase
      cases hphase
  rw [Kernel.tickWith_of_accepted haccepted] at hjob ⊢
  have hin := (InTick.begin hwf).exec hwf code b.isAsync sched
  have hbox := Kernel.box_tick hwf (hin.live hwf hjob).1 hkeeps
  have hfailed : job.phase.isFailed = true := by rw [hphase]; rfl
  obtain ⟨a1, ha1, hsame, -⟩ := hin.object _ _ ha
  have hmay1 : Kernel.mayRestart a1 = true := hsame.mayRestart.trans hmay
  have hwill : (k.beginTick.exec code b.isAsync sched).kernel.willRestart job = true := by
    simp [Kernel.willRestart, ha1, hmay1]
  have hback : job.handedBack = left := by simp [Job.handedBack, hphase]
  cases hraises : b.raises (k.beginTick.exec code b.isAsync sched) with
  | some e =>
    -- the barrier is not reached
    rw [Kernel.stepWith_of_raises haccepted hraises] at hstep
    cases hstep
    have hnot : ¬ (k.beginTick.exec code b.isAsync sched).ComesToRestart code b job := fun h => by
      have hnone := h.returns
      rw [hraises] at hnone
      cases hnone
    have hlog : k.stepLog code b loop sched = k.beginTick.log code b.isAsync sched := by
      simp [Kernel.stepLog, haccepted, hraises]
    rw [Kernel.Redelivers, hbox, hlog]
    simp [hnot]
  | none =>
    have hlog := Kernel.stepLog_of_accepted haccepted hraises
    rw [Kernel.stepWith_of_accepted haccepted hraises] at hstep
    rw [Kernel.Redelivers, hlog, deliveredTo_append]
    cases result with
    | error e =>
      rcases hin.box_of_error hwf hjob hfailed hwill hstep with
        ⟨hhooks, hleft⟩ | ⟨hnot, hempty, hleft⟩
      · have hcomes : (k.beginTick.exec code b.isAsync sched).ComesToRestart code b job :=
          ⟨hraises, hhooks⟩
        rw [hleft, hbox, hback]
        simp [hcomes]
      · have hnot' : ¬ (k.beginTick.exec code b.isAsync sched).ComesToRestart code b job :=
          fun h => hnot h.hooks
        rw [hleft, hbox, hempty]
        simp [hnot']
    | ok report =>
      have hcomes : (k.beginTick.exec code b.isAsync sched).ComesToRestart code b job :=
        ⟨hraises, hin.hooksReturnTo hwf hjob hfailed hstep⟩
      obtain ⟨names, hout⟩ := hin.outcome_of_barrier hwf hstep
      have hrequeued : (k.beginTick.exec code b.isAsync sched).kernel.requeued
          (k.beginTick.exec code b.isAsync sched).casualties job.name = left := by
        rw [hin.requeued_of_job hwf hjob, hfailed, hwill, ← hback]
        rfl
      have hnot : ¬ ∃ job' ∈ (k.beginTick.exec code b.isAsync sched).jobs,
          job'.name = job.name ∧ k'.isFinishedAt job' = true := by
        rintro ⟨job', hjob', hname, hfinished⟩
        obtain rfl := List.inj_on_of_nodup_map (hin.names_nodup hwf) hjob' hjob hname
        rw [hout.isFinishedAt_iff hjob' ha1] at hfinished
        simp [Job.concluded, hfailed, hmay1, Kernel.restarted, Agent.isAlive,
          AgentState.isAlive] at hfinished
      rw [hout.box, if_neg hnot, hbox, hrequeued]
      simp [hcomes]

/-! ## A step that consumes its inbox -/

/-- The code of agents that take the first message from `ctx.inbox` and fail
over it, with `careful` after putting it back. -/
def popping (careful : Bool) : AgentCode Unit where
  step _ _ _ inbox := .inbox inbox.tail <| if careful
    then .inbox inbox (.raise (.raised "RuntimeError" "boom"))
    else .raise (.raised "RuntimeError" "boom")
  onRestart s _ := (s, none)
  isAsync _ := false
  kind _ := "Popping"
  saveState _ := ∅
  loadState s _ := .ok s

theorem popping_restartReturns (careful : Bool) (a : Agent Unit) :
    Kernel.restartReturns (popping careful) a := by
  unfold Kernel.restartReturns AgentCode.restartOf
  cases a.body <;> rfl

/-- A worker that is restarted when it fails, with two jobs in its mailbox. -/
def workerOps : List (Op Unit) :=
  [.register
    { name := "worker"
      name_ne := Script.worker_ne
      body := .user ()
      restartPolicy := .onFailure
      fresh_state := rfl
      fresh_restarts := FreshAgent.default_restarts } none,
   .post "user" "worker" (.str "one"),
   .post "user" "worker" (.str "two")]

theorem workerOps_accepted (careful : Bool) :
    (Kernel.replay (popping careful) workerOps {}).isSome = true := by
  cases careful <;> decide

def worker (careful : Bool) : Kernel Unit :=
  ((Kernel.replay (popping careful) workerOps {}).get (workerOps_accepted careful)).2

theorem worker_reached (careful : Bool) :
    Runs (Kernel.Performs (popping careful)) {} (workerOps.map Op.act) (worker careful) :=
  (Kernel.replay_settles (Option.some_get (workerOps_accepted careful)).symm).mono
    fun _ _ _ h => h.1

/-- What is put back in time is redelivered. -/
theorem redelivers_iff_worker :
    (worker true).Redelivers (popping true) .serial false [0, 0, 0, 0]
      ((worker true).stepWith (popping true) .serial false [0, 0, 0, 0]).1 "worker" :=
  (redelivers_iff (worker_reached true)
    (show (worker true).stepWith (popping true) .serial false [0, 0, 0, 0] = (_, .ok _) from rfl)
    List.mem_cons_self rfl (show (worker true).objects[0]? = _ from rfl) rfl
    (by decide)).mpr
      (.inl ⟨⟨rfl, [], [], rfl, fun _ _ a _ _ => popping_restartReturns true a⟩, rfl⟩)

/-- **A consumed message is lost**: the worker takes its first job from
`ctx.inbox` and fails; the restart puts back the second one only. -/
theorem popped_message_lost :
    (((worker false).stepWith (popping false) .serial false [0, 0, 0]).2.toOption.map
        TickReport.restarted) = some ["worker"]
      ∧ ¬ (worker false).Redelivers (popping false) .serial false [0, 0, 0]
        ((worker false).stepWith (popping false) .serial false [0, 0, 0]).1 "worker"
      ∧ ((worker false).inboxOf "worker").map Message.payload = [.str "one", .str "two"]
      ∧ (((worker false).stepWith (popping false) .serial false [0, 0, 0]).1.inboxOf
          "worker").map Message.payload = [.str "two"] := by
  decide

end TitoOS
