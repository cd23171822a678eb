import TitoOS.Kernel.Run
import TitoOS.Lib.Tally

/-!
# What agents hold and hand on

A `Stock` names a quantity of a system of agents: what an agent holds, what a
message carries, and what steps make and use up. `Keeps` is a condition on the
code of each agent by itself: a step that returns holds in the end, or has sent
on, what it held and was given; a step that raises has kept it all. It may rely
on the agents in `lasting` having a mailbox, and an agent in `lasting` may
neither finish nor fail for good.

Here the condition is followed through a tick, in any order of actions: what a
job owes (`Job.Owes`) changes by what its actions hand on (`Job.Owes.move`), so
what all jobs owe and what has been delivered is what there was (`OwingTick`).
-/

namespace TitoOS

variable {σ M : Type}

/-- The agent object after a failure and its supervision. -/
def Kernel.recovered (code : AgentCode σ) (a : Agent σ) : Agent σ :=
  if mayRestart a then restarted code a else a

/-- The agent object when its step has returned. -/
def Agent.settled (a : Agent σ) : Agent σ :=
  if a.state = .running then { a with state := .ready } else a

variable [AddCommMonoid M]

/-- A quantity of a system of agents, and what is known of the agents. -/
structure Stock (σ M : Type) [AddCommMonoid M] where
  /-- How what is left has to compare with what there was. -/
  balance : Balance M
  /-- What holds of an agent between its steps while it is alive. -/
  fits : Agent σ → Prop
  /-- What an agent holds. -/
  held : Agent σ → M
  /-- What a message carries in the mailbox of a name. -/
  carried : String → Message → M
  /-- What the step of a name makes in a tick, if it returns. -/
  made : String → Int → M
  /-- What every step uses up. -/
  spent : M
  /-- The names of the agents that never finish. -/
  lasting : String → Prop

namespace Stock

variable (q : Stock σ M)

/-- What a message that the bus accepts carries away. -/
def posted (m : Message) : M := if m.isBroadcast then 0 else q.carried m.recipient m

/-- A broadcast carries nothing. -/
def Quiet (m : Message) : Prop := m.isBroadcast = true → ∀ x, q.carried x m = 0

/-- What a step is given: what its inbox carries and what it is to make. -/
def given (name : String) (tick : Int) (inbox : List Message) : M :=
  Tally.box q.carried name inbox + q.made name tick

/-- A step that owes `owed` leaves the agent `a`, with `back` put back. -/
structure Ends (a : Agent σ) (back owed : M) : Prop where
  fits : a.isAlive = true → q.fits a
  lasting : q.lasting a.name → a.isAlive = true
  within : q.balance.within (q.held a + back + q.spent) owed

end Stock

/-- The rest of the step of the agent `a` deals correctly with what it owes. -/
def StepProg.Keeps (q : Stock σ M) (code : AgentCode σ) (async : Bool) (given : M) :
    StepProg σ → Agent σ → M → Prop
  | .ret, a, owed => q.Ends a.settled 0 owed
  | .raise e, a, owed => e.isException = true →
      q.Ends (Kernel.recovered code { a with state := .failed }) given owed
  | .coroutine body, a, owed =>
      if async then Keeps q code async given body a owed else q.Ends a.settled 0 owed
  | .store s rest, a, owed => Keeps q code async given rest { a with body := .user s } owed
  | .send recipient payload metadata rest, a, owed =>
      let m : Message := { sender := a.name, recipient, payload, metadata }
      q.Quiet m
      ∧ (∃ left, owed = q.posted m + left ∧ Keeps q code async given (rest (.ok ())) a left)
      ∧ (¬ q.lasting recipient → ∀ e, e.isException = true →
          Keeps q code async given (rest (.error e)) a owed)
  | .broadcast payload metadata rest, a, owed =>
      q.Quiet { sender := a.name, recipient := BROADCAST, payload, metadata }
      ∧ Keeps q code async given rest a owed
  | .spawn child rest, a, owed =>
      (∃ left, owed = q.held (child.linked (some a.name)) + left
        ∧ q.fits (child.linked (some a.name)) ∧ Keeps q code async given (rest (.ok ())) a left)
      ∧ ∀ e, e.isException = true → Keeps q code async given (rest (.error e)) a owed
  | .wait rest, a, owed => Keeps q code async given rest { a with state := .waiting } owed
  | .exit rest, a, owed => Keeps q code async given rest { a with state := .done } owed
  | _, _, _ => False

/-- **What the code of each agent has to do**: a step that is scheduled and that
the backend accepts deals correctly with what the agent holds and is given. -/
def AgentCode.Keeps (q : Stock σ M) (code : AgentCode σ) : Prop :=
  ∀ (async : Bool) (a : Agent σ) (tick : Int) (inbox : List Message), q.fits a →
    (a.state = .waiting → inbox ≠ []) → (async = false → code.isAsyncAgent a = false) →
    (code.stepOf { a with state := .running } tick inbox).Keeps q code async
      (q.given a.name tick inbox) { a with state := .running }
      (q.held a + q.given a.name tick inbox)

/-! ## What a job owes -/

/-- What the step of the agent object `a`, which was given `given`, owes when it
has got to a phase. -/
def Phase.Owes (q : Stock σ M) (code : AgentCode σ) (async : Bool) (inbox : List Message)
    (given : M) (a : Agent σ) (owed : M) : Phase σ → Prop
  | .pending => q.fits a ∧ (a.state = .waiting → inbox ≠ [])
      ∧ (async = false → code.isAsyncAgent a = false) ∧ owed = q.held a + given
  | .running _ _ rest => rest.Keeps q code async given a owed
  | .returned .. => q.Ends a 0 owed
  | .failed .. => q.Ends (Kernel.recovered code a) given owed
  | .escaped .. => True

/-- What the job of the agent object `a` owes in tick `tick`. -/
def Job.Owes (q : Stock σ M) (code : AgentCode σ) (async : Bool) (tick : Int) (job : Job σ)
    (a : Agent σ) (owed : M) : Prop :=
  job.phase.Owes q code async job.inbox (q.given job.name tick job.inbox) a owed

/-! ### One action -/

/-- The objects that an action adds. -/
def Kernel.added (k k' : Kernel σ) : List (Agent σ) := k'.objects.drop k.objects.length

/-- An action from `k` to `k'` that appends `log` to mailboxes hands on the
difference of what is owed before and after: to mailboxes, and to the agents it
adds. -/
structure Stock.HandsOn (q : Stock σ M) (k k' : Kernel σ) (log : List Delivery) (owed left : M) :
    Prop where
  owed : owed = (Tally.log q.carried log + ((k.added k').map q.held).sum) + left
  fits : ∀ a ∈ k.added k', q.fits a

namespace Stock

variable {q : Stock σ M} {k k' : Kernel σ} {log : List Delivery} {owed left : M}

/-- An action that adds no agent. -/
theorem HandsOn.of_length_eq (h : k'.objects.length = k.objects.length)
    (howed : owed = Tally.log q.carried log + left) : q.HandsOn k k' log owed left := by
  have hnone : k.added k' = [] := by
    rw [Kernel.added, List.drop_eq_nil_iff]
    omega
  constructor
  case owed => simp [hnone, howed]
  case fits => simp [hnone]

/-- An action that appends nothing and adds no agent. -/
theorem HandsOn.of_quiet (h : k'.objects.length = k.objects.length) (owed : M) :
    q.HandsOn k k' [] owed owed :=
  .of_length_eq h (by simp)

/-- What an accepted message carries away is what its deliveries carry. -/
theorem tally_deliveries (q : Stock σ M) {bus bus' : MessageBus} {m : Message}
    (hquiet : q.Quiet m) (h : bus.send m = .ok bus') :
    Tally.log q.carried (bus.deliveries m) = q.posted m := by
  unfold posted MessageBus.deliveries
  unfold MessageBus.send at h
  cases hb : m.isBroadcast with
  | true =>
    have hzero : ∀ l : List String, Tally.log q.carried (l.map fun x => (x, m)) = 0 := by
      intro l
      induction l with
      | nil => rfl
      | cons x rest ih => simp [ih, hquiet hb]
    simpa using hzero _
  | false =>
    rw [hb] at h
    by_cases hc : bus.mailboxes.contains m.recipient = true
    · simp [hc]
    · simp [hc] at h

end Stock

/-- An action of the job of the object `ref` hands on what the job then no longer owes. -/
def Stock.Pays (q : Stock σ M) (code : AgentCode σ) (async : Bool) (inbox : List Message)
    (given : M) (ref : Nat) (k : Kernel σ) (after : Kernel σ × Phase σ) (log : List Delivery)
    (owed : M) : Prop :=
  ∃ a left, after.1.objects[ref]? = some a ∧ after.2.Owes q code async inbox given a left
    ∧ q.HandsOn k after.1 log owed left

namespace StepProg.Keeps

variable {q : Stock σ M} {code : AgentCode σ} {async : Bool} {a : Agent σ} {given owed : M}
  {k : Kernel σ} {ref : Nat} {drained : List Message}

/-- A message is accepted and carries away what it weighs, or is refused and costs
nothing. A name that lasts is never refused. -/
theorem pays_send {recipient : String} {payload : Value} {metadata : Metadata}
    {rest : Except Exc Unit → StepProg σ}
    (h : (StepProg.send recipient payload metadata rest).Keeps q code async given a owed)
    (ha : k.objects[ref]? = some a) (hlasting : ∀ x, q.lasting x → x ∈ k.bus.mailboxes.keys)
    (calls : List Call) (inbox : List Message) :
    q.Pays code async drained given ref k
      (k.act async ref a.name calls inbox (.send recipient payload metadata rest))
      (k.bus.deliveries { sender := a.name, recipient, payload, metadata }) owed := by
  obtain ⟨hquiet, ⟨left, howed, hok⟩, herror⟩ := h
  simp only [Kernel.act, Kernel.ctxSend, MessageBus.post]
  cases hsend : k.bus.send { sender := a.name, recipient, payload, metadata } with
  | ok bus =>
    refine ⟨a, left, ha, hok, .of_length_eq rfl ?_⟩
    rw [howed, q.tally_deliveries hquiet hsend]
  | error e =>
    have hno : ¬ q.lasting recipient := by
      intro hlast
      have haccepts : k.bus.Accepts { sender := a.name, recipient, payload, metadata } :=
        .inr (hlasting _ hlast)
      obtain ⟨bus, hok'⟩ := MessageBus.send_ok_iff.mpr haccepts
      rw [hsend] at hok'
      cases hok'
    have hexc := Kernel.ctxSend_answers k a.name recipient payload metadata e (by
      simp [Kernel.ctxSend, MessageBus.post, hsend])
    refine ⟨a, owed, ha, herror hno e hexc, ?_⟩
    rw [MessageBus.deliveries_of_error hsend]
    exact .of_quiet rfl _

/-- A broadcast is always accepted. -/
theorem pays_broadcast {payload : Value} {metadata : Metadata} {rest : StepProg σ}
    (h : (StepProg.broadcast payload metadata rest).Keeps q code async given a owed)
    (ha : k.objects[ref]? = some a) (calls : List Call) (inbox : List Message) :
    q.Pays code async drained given ref k
      (k.act async ref a.name calls inbox (.broadcast payload metadata rest))
      (k.bus.deliveries { sender := a.name, recipient := BROADCAST, payload, metadata }) owed := by
  obtain ⟨hquiet, hrest⟩ := h
  obtain ⟨bus, hsend⟩ := MessageBus.send_ok_iff.mpr
    (show k.bus.Accepts { sender := a.name, recipient := BROADCAST, payload, metadata } from
      .inl rfl)
  simp only [Kernel.act, Kernel.ctxBroadcast, Kernel.ctxSend, MessageBus.post, hsend]
  refine ⟨a, owed, ha, hrest, .of_length_eq rfl ?_⟩
  rw [q.tally_deliveries hquiet hsend]
  simp [Stock.posted, Message.isBroadcast]

/-- A child takes what it is to hold with it, if its name is free. -/
theorem pays_spawn {child : FreshAgent σ} {rest : Except Exc Unit → StepProg σ}
    (h : (StepProg.spawn child rest).Keeps q code async given a owed)
    (ha : k.objects[ref]? = some a) (calls : List Call) (inbox : List Message) :
    q.Pays code async drained given ref k
      (k.act async ref a.name calls inbox (.spawn child rest)) [] owed := by
  obtain ⟨⟨left, howed, hfits, hok⟩, herror⟩ := h
  simp only [Kernel.act, Kernel.ctxRegister]
  cases hreg : k.register child (some a.name) with
  | ok k' =>
    obtain ⟨-, rfl⟩ := Kernel.register_eq_ok_iff.mp hreg
    obtain ⟨hlt, -⟩ := List.getElem?_eq_some_iff.mp ha
    refine ⟨a, left, (List.getElem?_append_left hlt).trans ha, hok, ?_, ?_⟩
    · simpa [Kernel.added] using howed
    · simpa [Kernel.added] using hfits
  | error e =>
    have hexc := Kernel.ctxRegister_answers k child (some a.name) e (by
      simp [Kernel.ctxRegister, hreg])
    exact ⟨a, owed, ha, herror e hexc, .of_quiet rfl _⟩

/-- **One action of a step** hands on what the step no longer owes. -/
theorem pays {rest : StepProg σ} (h : rest.Keeps q code async given a owed)
    (ha : k.objects[ref]? = some a) (hlasting : ∀ x, q.lasting x → x ∈ k.bus.mailboxes.keys)
    (calls : List Call) (inbox : List Message) :
    q.Pays code async drained given ref k (k.act async ref a.name calls inbox rest)
      (((Kernel.outgoing a.name rest).map k.bus.deliveries).getD []) owed := by
  have hupd : ∀ f : Agent σ → Agent σ, (k.modifyAgent ref f).objects[ref]? = some (f a) := by
    intro f
    rw [Kernel.getElem?_modifyAgent, if_pos rfl, ha]
    rfl
  cases rest with
  | ret => exact ⟨_, owed, hupd _, h, .of_quiet (by simp [Kernel.act, Kernel.settle]) _⟩
  | raise e =>
    simp only [Kernel.act]
    cases he : e.isException with
    | true =>
      exact ⟨_, owed, hupd fun a => { a with state := .failed }, h he,
        .of_quiet (by simp [Kernel.recordFailure, Kernel.setState]) _⟩
    | false => exact ⟨a, owed, ha, trivial, .of_quiet rfl _⟩
  | coroutine body =>
    simp only [Kernel.act]
    unfold Keeps at h
    cases async with
    | true => exact ⟨a, owed, ha, h, .of_quiet rfl _⟩
    | false => exact ⟨_, owed, hupd _, h, .of_quiet (by simp [Kernel.settle]) _⟩
  | store s rest => exact ⟨_, owed, hupd _, h, .of_quiet (by simp [Kernel.act]) _⟩
  | send => exact h.pays_send ha hlasting calls inbox
  | broadcast => exact h.pays_broadcast ha calls inbox
  | spawn => exact h.pays_spawn ha calls inbox
  | wait rest =>
    exact ⟨_, owed, hupd _, h, .of_quiet (by simp [Kernel.act, Kernel.ctxWait, Kernel.setState]) _⟩
  | exit rest =>
    exact ⟨_, owed, hupd _, h, .of_quiet (by simp [Kernel.act, Kernel.ctxExit, Kernel.setState]) _⟩
  | inbox | register | unregister | dropMailbox => exact absurd h id

end StepProg.Keeps

/-- **One action of a job** hands on what the job no longer owes. -/
theorem Job.Owes.move {q : Stock σ M} {code : AgentCode σ} (hcode : code.Keeps q) {k : Kernel σ}
    {async : Bool} {job : Job σ} {a : Agent σ} {owed : M}
    (h : job.Owes q code async k.tick a owed) (ha : k.objects[job.ref]? = some a)
    (hname : a.name = job.name) (hlasting : ∀ x, q.lasting x → x ∈ k.bus.mailboxes.keys) :
    q.Pays code async job.inbox (q.given job.name k.tick job.inbox) job.ref k
      (k.moveJob code async job) (k.moveDeliveries job) owed := by
  obtain ⟨ref, name, drained, phase⟩ := job
  subst hname
  cases phase with
  | pending =>
    obtain ⟨hfits, hmail, hasync, howed⟩ := h
    have hstep := hcode async a k.tick drained hfits hmail hasync
    simp only [Kernel.moveJob, Kernel.start, ha]
    refine ⟨{ a with state := .running }, owed, ?_, howed ▸ hstep,
      .of_quiet (by simp [Kernel.setState]) _⟩
    rw [Kernel.setState, Kernel.getElem?_modifyAgent, if_pos rfl, ha]
    rfl
  | running calls inbox rest => exact StepProg.Keeps.pays h ha hlasting calls inbox
  | returned | failed | escaped => exact ⟨a, owed, ha, h, .of_quiet rfl _⟩

/-- What a step owes when it has ended, the agent settles after its supervision. -/
theorem Job.Owes.ends {q : Stock σ M} {code : AgentCode σ} {async : Bool} {tick : Int}
    {job : Job σ} {a : Agent σ} {owed : M} (h : job.Owes q code async tick a owed)
    (hsettled : job.phase.isSettled = true) :
    q.Ends (job.concluded code a)
      (if job.phase.isFailed then q.given job.name tick job.inbox else 0) owed := by
  unfold Job.Owes at h
  unfold Job.concluded
  cases hp : job.phase with
  | pending | running | escaped => rw [hp] at hsettled; cases hsettled
  | returned calls inbox =>
    rw [hp] at h
    exact h
  | failed calls inbox =>
    rw [hp] at h
    exact h

/-! ## What all jobs owe -/

/-- What the agents of the kernel hold. -/
def Stock.holdings (q : Stock σ M) (k : Kernel σ) : M :=
  (k.objects.map q.held).sum

/-- What the agents hold and the jobs weigh, by the positions of their objects. -/
theorem Stock.sum_holdings (q : Stock σ M) {k : Kernel σ} {jobs : List (Job σ)} (w : Job σ → M)
    (hjobs : ∀ job ∈ jobs, job.ref < k.objects.length) :
    ∑ i ∈ Finset.range k.objects.length, ((k.objects[i]?).elim 0 q.held
        + Tally.box (fun _ job => w job) i (jobs.filter fun job => job.ref = i))
      = q.holdings k + (jobs.map w).sum := by
  have hrefs : ∀ e ∈ jobs.map fun job => (job.ref, job),
      e.1 ∈ Finset.range k.objects.length := by
    intro e he
    obtain ⟨job, hjob, rfl⟩ := List.mem_map.mp he
    exact Finset.mem_range.mpr (hjobs job hjob)
  have hlog := Tally.log_eq_sum (fun _ job => w job) _ hrefs
  simp only [List.filter_map, List.map_map, Function.comp_def, List.map_id'] at hlog
  rw [Finset.sum_add_distrib, ← hlog, Tally.sum_getElem?]
  simp [Stock.holdings, Tally.log, Function.comp_def]

/-- At the point `t` of a tick from `k` that has delivered `log`, what all agents
hold or owe and what has been delivered is `start`. -/
structure OwingTick (q : Stock σ M) (code : AgentCode σ) (async : Bool) (k : Kernel σ)
    (t : TickState σ) (log : List Delivery) (start : M) : Prop where
  owed : ∃ owed : Nat → M,
    (∀ job ∈ t.jobs, ∀ a, t.kernel.objects[job.ref]? = some a →
      job.Owes q code async t.kernel.tick a (owed job.ref))
    ∧ (∀ i a, t.kernel.objects[i]? = some a → (∀ job ∈ t.jobs, job.ref ≠ i) →
      owed i = q.held a)
    ∧ ∑ i ∈ Finset.range t.kernel.objects.length, owed i + Tally.log q.carried log = start
  fits : ∀ i a, k.objects.length ≤ i → t.kernel.objects[i]? = some a → q.fits a

namespace OwingTick

variable {q : Stock σ M} {code : AgentCode σ} {async : Bool} {k : Kernel σ} {t : TickState σ}
  {log : List Delivery} {start : M}

/-! ### One move

The job `job` moves. What it owes becomes `left`, an object that the move adds
owes what it holds, and nothing else is owed differently. -/

section Move

variable {i : Nat} {job : Job σ} (hi : t.jobs[i]? = some job)

/-- What is owed after the move. -/
def owedAfter (q : Stock σ M) (t u : TickState σ) (ref : Nat) (owed : Nat → M) (left : M)
    (j : Nat) : M :=
  if j < t.kernel.objects.length then Function.update owed ref left j
  else (u.kernel.objects[j]?).elim 0 q.held

include hi in
/-- An object that was there and is not the job's own stays as it is. -/
theorem object_of_ne {j : Nat} (hj : j < t.kernel.objects.length) (hne : j ≠ job.ref) :
    (t.advance code async i).kernel.objects[j]? = t.kernel.objects[j]? := by
  have heff := t.kernel.moveJob_effect code async job (r := true) (by simp)
  obtain ⟨c, hc, -, hframe⟩ := heff.object (List.getElem?_eq_getElem hj)
  rw [TickState.kernel_advance hi, hc, hframe hne, List.getElem?_eq_getElem hj]

include hi in
/-- The job owes what is left, and every other job what it owed. -/
theorem owes_advance (hin : InTick k t) (hwf : k.Wf) {owed : Nat → M}
    (howes : ∀ job ∈ t.jobs, ∀ a, t.kernel.objects[job.ref]? = some a →
      job.Owes q code async t.kernel.tick a (owed job.ref))
    {a' : Agent σ} {left : M}
    (ha' : (t.kernel.moveJob code async job).1.objects[job.ref]? = some a')
    (hleft : (t.kernel.moveJob code async job).2.Owes q code async job.inbox
      (q.given job.name t.kernel.tick job.inbox) a' left) :
    ∀ job' ∈ (t.advance code async i).jobs, ∀ b,
      (t.advance code async i).kernel.objects[job'.ref]? = some b →
      job'.Owes q code async (t.advance code async i).kernel.tick b
        (owedAfter q t (t.advance code async i) job.ref owed left job'.ref) := by
  have htick : (t.advance code async i).kernel.tick = t.kernel.tick := by
    rw [TickState.kernel_advance hi]
    exact (t.kernel.moveJob_effect code async job (r := true) (by simp)).tick_eq
  intro job' hjob' b hb
  obtain ⟨j, hj⟩ := List.mem_iff_getElem?.mp hjob'
  rw [TickState.getElem?_advance hi] at hj
  rw [htick]
  split at hj
  · cases hj
    obtain ⟨a, ha, -⟩ := hin.job_object hwf (List.mem_of_getElem? hi)
    obtain ⟨hlt, -⟩ := List.getElem?_eq_some_iff.mp ha
    rw [TickState.kernel_advance hi, ha'] at hb
    cases hb
    simpa [owedAfter, hlt, Job.Owes] using hleft
  · rename_i hji
    have hold := List.mem_of_getElem? hj
    obtain ⟨c, hc, -⟩ := hin.job_object hwf hold
    obtain ⟨hlt, -⟩ := List.getElem?_eq_some_iff.mp hc
    have hne : job'.ref ≠ job.ref := fun href =>
      hji (eq_index_of_nodup_map (hin.refs_nodup hwf) hj hi href)
    rw [object_of_ne hi hlt hne] at hb
    simpa [owedAfter, hlt, hne] using howes job' hold b hb

include hi in
/-- An object without a job owes what it holds. -/
theorem rests_advance {owed : Nat → M}
    (hrests : ∀ j a, t.kernel.objects[j]? = some a → (∀ job ∈ t.jobs, job.ref ≠ j) →
      owed j = q.held a) (left : M) :
    ∀ j b, (t.advance code async i).kernel.objects[j]? = some b →
      (∀ job ∈ (t.advance code async i).jobs, job.ref ≠ j) →
      owedAfter q t (t.advance code async i) job.ref owed left j = q.held b := by
  intro j b hb hno
  have hno' : ∀ job' ∈ t.jobs, job'.ref ≠ j := by
    intro job' hjob' href
    obtain ⟨job'', hjob'', href', -⟩ :=
      TickState.exists_of_fixed (TickState.fixed_advance code async i t).symm hjob'
    exact hno job'' hjob'' (href'.trans href)
  have hne : j ≠ job.ref := (hno' job (List.mem_of_getElem? hi)).symm
  by_cases hj : j < t.kernel.objects.length
  · rw [object_of_ne hi hj hne] at hb
    simpa [owedAfter, hj, hne] using hrests j b hb hno'
  · simp [owedAfter, hj, hb]

include hi in
/-- Every object that came in the tick fits, the new ones too. -/
theorem fits_advance (hin : InTick k t) (hwf : k.Wf)
    (hfits : ∀ j a, k.objects.length ≤ j → t.kernel.objects[j]? = some a → q.fits a)
    (hadded : ∀ a ∈ t.kernel.added (t.kernel.moveJob code async job).1, q.fits a) :
    ∀ j b, k.objects.length ≤ j → (t.advance code async i).kernel.objects[j]? = some b →
      q.fits b := by
  intro j b hj hb
  by_cases hlt : j < t.kernel.objects.length
  · have hne : j ≠ job.ref := by
      rintro rfl
      obtain ⟨c, -, hc, -⟩ := hin.origin hwf (List.mem_of_getElem? hi)
      obtain ⟨hlt', -⟩ := List.getElem?_eq_some_iff.mp hc
      omega
    rw [object_of_ne hi hlt hne] at hb
    exact hfits j b hj hb
  · have hnew : (t.kernel.added (t.kernel.moveJob code async job).1)[
        j - t.kernel.objects.length]? = some b := by
      rw [Kernel.added, List.getElem?_drop, Nat.add_sub_cancel' (by omega),
        ← TickState.kernel_advance hi, hb]
    exact hadded b (List.mem_of_getElem? hnew)

end Move

/-- One move keeps the sum. -/
theorem advance (h : OwingTick q code async k t log start) (hcode : code.Keeps q)
    (hin : InTick k t) (hwf : k.Wf)
    (hlasting : ∀ x, q.lasting x → x ∈ t.kernel.bus.mailboxes.keys) (i : Nat) :
    OwingTick q code async k (t.advance code async i) (log ++ t.deliveries i) start := by
  cases hi : t.jobs[i]? with
  | none => simpa [TickState.advance_of_none hi, TickState.deliveries, hi] using h
  | some job =>
    have hjob : job ∈ t.jobs := List.mem_of_getElem? hi
    have hout : t.deliveries i = t.kernel.moveDeliveries job := by simp [TickState.deliveries, hi]
    have heff := t.kernel.moveJob_effect code async job (r := true) (by simp)
    obtain ⟨a, ha, hname, -⟩ := hin.job_object hwf hjob
    obtain ⟨hlt, -⟩ := List.getElem?_eq_some_iff.mp ha
    obtain ⟨owed, howes, hrests, hsum⟩ := h.owed
    obtain ⟨a', left, ha', hleft, hhands⟩ := (howes job hjob a ha).move hcode ha hname hlasting
    constructor
    case owed =>
      refine ⟨owedAfter q t (t.advance code async i) job.ref owed left,
        owes_advance hi hin hwf howes ha' hleft, rests_advance hi hrests left, ?_⟩
      -- what the move hands on is what the job no longer owes
      simp only [owedAfter, TickState.kernel_advance hi]
      rw [hout, Tally.sum_extend _ _ heff.length_le, Tally.log_append, ← hsum,
        Tally.sum_update hlt hhands.owed, Kernel.added]
      abel
    case fits => exact fits_advance hi hin hwf h.fits hhands.fits

/-- What there is at the start of a tick: what the agents hold, and what the jobs
are given. -/
theorem begin (q : Stock σ M) (code : AgentCode σ) (hwf : k.Wf)
    (hfits : ∀ x a, k.agent? x = some a → a.isAlive = true → q.fits a)
    (hasync : ∀ job ∈ k.beginTick.jobs, ∀ a, k.objects[job.ref]? = some a →
      async = false → code.isAsyncAgent a = false) :
    OwingTick q code async k k.beginTick [] (q.holdings k
      + (k.beginTick.jobs.map fun job => q.given job.name (k.tick + 1) job.inbox).sum) := by
  refine ⟨⟨fun i => (k.objects[i]?).elim 0 q.held
    + Tally.box (fun _ job => q.given job.name (k.tick + 1) job.inbox) i
      (k.beginTick.jobs.filter fun job => job.ref = i), ?_, ?_, ?_⟩, ?_⟩
  · intro job hjob a ha
    obtain ⟨b, hreg, hb, halive, hmail, heq⟩ := (Kernel.mem_beginTick_jobs hwf).mp hjob
    have hinbox : job.inbox = k.inboxOf b.name := by rw [heq]
    rw [Kernel.beginTick_objects, hb] at ha
    cases ha
    have hone := filter_eq_of_nodup_map (Kernel.beginTick_refs_nodup hwf) hjob
    have hphase : job.phase = .pending := (Kernel.object_of_mem_beginTick hjob).1
    unfold Job.Owes
    simp only [hphase, hone]
    exact ⟨hfits _ a (Kernel.agent?_eq_some_iff.mpr ⟨_, hreg, hb⟩) halive, hinbox ▸ hmail,
      hasync job hjob a hb, by simp [hb]⟩
  · intro i a ha hno
    have hnone : (k.beginTick.jobs.filter fun job => job.ref = i) = [] := by
      rw [List.filter_eq_nil_iff]
      exact fun job hjob => by simpa using hno job hjob
    rw [Kernel.beginTick_objects] at ha
    simp [ha, hnone]
  · rw [Kernel.beginTick_objects, Tally.log_nil, add_zero]
    refine q.sum_holdings (fun job => q.given job.name (k.tick + 1) job.inbox) fun job hjob => ?_
    obtain ⟨-, a, ha⟩ := Kernel.object_of_mem_beginTick hjob
    exact (List.getElem?_eq_some_iff.mp ha).1
  · intro i a hi ha
    rw [Kernel.beginTick_objects, List.getElem?_eq_none hi] at ha
    cases ha

/-- **The accounts of a tick**, in any order of actions. -/
theorem exec {q : Stock σ M} {code : AgentCode σ} (hcode : code.Keeps q)
    (hcontext : code.ContextOnly) (hwf : k.Wf) (haddr : k.Addressable)
    (hfits : ∀ x a, k.agent? x = some a → a.isAlive = true → q.fits a)
    (hlasting : ∀ x, q.lasting x → k.isLive x = true)
    (hasync : ∀ job ∈ k.beginTick.jobs, ∀ a, k.objects[job.ref]? = some a →
      async = false → code.isAsyncAgent a = false) (sched : List Nat) :
    OwingTick q code async k (k.beginTick.exec code async sched)
      (k.beginTick.log code async sched) (q.holdings k
        + (k.beginTick.jobs.map fun job => q.given job.name (k.tick + 1) job.inbox).sum) := by
  refine (TickState.exec_log_induction (I := fun t log => ContextTick k t log
    ∧ OwingTick q code async k t log _) (fun i t log h => ?_) sched
    ⟨ContextTick.begin hwf, begin q code hwf hfits hasync⟩).2
  obtain ⟨hpoint, howing⟩ := h
  exact ⟨hpoint.advance hwf hcontext async i, howing.advance hcode hpoint.inTick hwf
    (fun x hx => hpoint.hasBox haddr (.inl (hlasting x hx))) i⟩

end OwingTick

end TitoOS
