import TitoOS.Kernel.TickLaws
import TitoOS.Lib.Transition

/-!
# The course of a step

What one agent does in a tick, seen from its own program: `StepProg.Next` is
one action of a step, with any answer that a call can get, and a job has taken a
run of such actions from the start of its step (`Follows.exec`). So what holds
of every run of a program holds of every job that executes it, whatever the
other agents do and in whatever order.
-/

namespace TitoOS

variable {σ : Type}

/-- What an action of a step shows: the call it makes, the message it puts on the
bus, and what it makes of the list `ctx.inbox`. -/
structure Deal where
  call : Option Call := none
  posted : Option Message := none
  inbox : Option (List Message) := none

/-- One action of the step of the agent named `name`: its own state and program
before and after. -/
inductive StepProg.Next (name : String) :
    Body σ × StepProg σ → Deal → Body σ × StepProg σ → Prop
  | store {b : Body σ} {s : σ} {rest : StepProg σ} : Next name (b, .store s rest) {} (.user s, rest)
  | inbox {b : Body σ} {messages : List Message} {rest : StepProg σ} :
      Next name (b, .inbox messages rest) { inbox := some messages } (b, rest)
  | coroutine {b : Body σ} {body : StepProg σ} : Next name (b, .coroutine body) {} (b, body)
  | sent {b : Body σ} {recipient : String} {payload : Value} {metadata : Metadata}
      {rest : Except Exc Unit → StepProg σ} :
      Next name (b, .send recipient payload metadata rest)
        { call := some (.send recipient)
          posted := some { sender := name, recipient, payload, metadata } }
        (b, rest (.ok ()))
  | refused {b : Body σ} {recipient : String} {payload : Value} {metadata : Metadata}
      {rest : Except Exc Unit → StepProg σ} {e : Exc} : e.isException = true →
      Next name (b, .send recipient payload metadata rest) { call := some (.send recipient) }
        (b, rest (.error e))
  | broadcast {b : Body σ} {payload : Value} {metadata : Metadata} {rest : StepProg σ} :
      Next name (b, .broadcast payload metadata rest)
        { call := some .broadcast
          posted := some { sender := name, recipient := BROADCAST, payload, metadata } } (b, rest)
  | spawn {b : Body σ} {child : FreshAgent σ} {rest : Except Exc Unit → StepProg σ}
      {answer : Except Exc Unit} : Answers answer →
      Next name (b, .spawn child rest) { call := some (.spawn child.name) } (b, rest answer)
  | wait {b : Body σ} {rest : StepProg σ} :
      Next name (b, .wait rest) { call := some .wait } (b, rest)
  | exit {b : Body σ} {rest : StepProg σ} :
      Next name (b, .exit rest) { call := some .exit } (b, rest)
  | register {b : Body σ} {agent : FreshAgent σ} {parent : Option String}
      {rest : Except Exc Unit → StepProg σ} {answer : Except Exc Unit} : Answers answer →
      Next name (b, .register agent parent rest) { call := some (.register agent.name) }
        (b, rest answer)
  | unregister {b : Body σ} {n : String} {rest : StepProg σ} :
      Next name (b, .unregister n rest) { call := some (.unregister n) } (b, .dropMailbox n rest)
  | dropMailbox {b : Body σ} {n : String} {rest : StepProg σ} :
      Next name (b, .dropMailbox n rest) {} (b, rest)

/-- A step that has got to the phase has the program `rest` left: what it was
about to do when it ended. -/
def Phase.Leaves (async : Bool) (rest : StepProg σ) : Phase σ → Prop
  | .pending => False
  | .running _ _ left => left = rest
  | .returned .. => rest = .ret ∨ async = false ∧ ∃ body, rest = .coroutine body
  | .failed .. => ∃ e, rest = .raise e ∧ e.isException = true
  | .escaped e .. => rest = .raise e ∧ e.isException = false

/-- The list `ctx.inbox` of a step that has begun. -/
def Phase.inbox? : Phase σ → Option (List Message)
  | .pending => none
  | .running _ inbox _ | .returned _ inbox | .failed _ inbox | .escaped _ _ inbox => some inbox

theorem Job.handedBack_of_inbox? {job : Job σ} {inbox : List Message}
    (h : job.phase.inbox? = some inbox) : job.handedBack = inbox := by
  unfold handedBack
  cases hp : job.phase <;> simp_all [Phase.inbox?]

namespace Kernel

/-- The message that the next action of a job puts on the bus. -/
def movePosts (k : Kernel σ) (job : Job σ) : List Message :=
  match job.phase with
  | .running _ _ rest => (outgoing job.name rest).toList.filter fun m => (k.bus.send m).isOk
  | _ => []

/-- **What an action of a running step does**: it goes on with the program, or
the step ends with that program left. -/
theorem act_next (k : Kernel σ) (async : Bool) {ref : Nat} (name : String) (calls : List Call)
    (inbox : List Message) {b : Agent σ} (hb : k.objects[ref]? = some b) (p : StepProg σ) :
    ∃ b', (k.act async ref name calls inbox p).1.objects[ref]? = some b'
      ∧ ((∃ deal q, StepProg.Next name (b.body, p) deal (b'.body, q)
          ∧ (k.act async ref name calls inbox p).2
            = .running (calls ++ deal.call.toList) (deal.inbox.getD inbox) q
          ∧ ((outgoing name p).toList.filter fun m => (k.bus.send m).isOk) = deal.posted.toList)
        ∨ (b'.body = b.body ∧ (k.act async ref name calls inbox p).2.Leaves async p
          ∧ (k.act async ref name calls inbox p).2.calls = calls
          ∧ (k.act async ref name calls inbox p).2.inbox? = some inbox
          ∧ outgoing name p = none)) := by
  have hupd : ∀ f : Agent σ → Agent σ, (k.modifyAgent ref f).objects[ref]? = some (f b) := by
    intro f
    simp [getElem?_modifyAgent, hb]
  cases p with
  | ret =>
    refine ⟨_, hupd _, .inr ⟨?_, .inl rfl, rfl, rfl, rfl⟩⟩
    split <;> rfl
  | raise e =>
    cases he : e.isException with
    | true =>
      refine ⟨{ b with state := .failed }, ?_, .inr ⟨rfl, ?_⟩⟩
      · simpa [act, he, recordFailure, setState] using hupd fun a => { a with state := .failed }
      · simp [act, he, Phase.Leaves, Phase.calls, Phase.inbox?, outgoing]
    | false =>
      refine ⟨b, by simpa [act, he] using hb, .inr ⟨rfl, ?_⟩⟩
      simp [act, he, Phase.Leaves, Phase.calls, Phase.inbox?, outgoing]
  | coroutine body =>
    cases async with
    | true => exact ⟨b, hb, .inl ⟨_, _, .coroutine, by simp [act], rfl⟩⟩
    | false =>
      refine ⟨_, hupd _, .inr ⟨?_, .inr ⟨rfl, body, rfl⟩, rfl, rfl, rfl⟩⟩
      split <;> rfl
  | store s rest => exact ⟨_, hupd _, .inl ⟨_, _, .store, by simp [act], rfl⟩⟩
  | inbox messages rest => exact ⟨b, hb, .inl ⟨_, _, .inbox, by simp [act], rfl⟩⟩
  | send recipient payload metadata rest =>
    refine ⟨b, by simpa [act, objects_ctxSend] using hb, .inl ?_⟩
    cases hsend : k.bus.send { sender := name, recipient, payload, metadata } with
    | ok bus =>
      refine ⟨_, _, .sent, ?_, by simp [outgoing, hsend, Except.isOk, Except.toBool]⟩
      simp [act, ctxSend, MessageBus.post, hsend]
    | error e =>
      -- a refused message is answered to the step, and nothing is posted
      have hanswer := ctxSend_answers k name recipient payload metadata
      simp only [ctxSend, MessageBus.post, hsend] at hanswer
      refine ⟨_, _, .refused (hanswer e rfl), ?_,
        by simp [outgoing, hsend, Except.isOk, Except.toBool]⟩
      simp [act, ctxSend, MessageBus.post, hsend]
  | broadcast payload metadata rest =>
    refine ⟨b, by simpa [act, ctxBroadcast, objects_ctxSend] using hb,
      .inl ⟨_, _, .broadcast, rfl, ?_⟩⟩
    simp [outgoing, MessageBus.send, Message.isBroadcast, Except.isOk, Except.toBool]
  | spawn child rest =>
    exact ⟨b, getElem?_ctxRegister hb .., .inl ⟨_, _,
      .spawn (ctxRegister_answers k child (some name)), rfl, rfl⟩⟩
  | wait rest => exact ⟨_, hupd _, .inl ⟨_, _, .wait, rfl, rfl⟩⟩
  | exit rest => exact ⟨_, hupd _, .inl ⟨_, _, .exit, rfl, rfl⟩⟩
  | register agent parent rest =>
    exact ⟨b, getElem?_ctxRegister hb .., .inl ⟨_, _,
      .register (ctxRegister_answers k agent parent), rfl, rfl⟩⟩
  | unregister n rest => exact ⟨b, hb, .inl ⟨_, _, .unregister, rfl, rfl⟩⟩
  | dropMailbox n rest => exact ⟨b, hb, .inl ⟨_, _, .dropMailbox, by simp [act], rfl⟩⟩

end Kernel

namespace TickState

/-- The message that the next action of the `i`-th job puts on the bus. -/
def posts (i : Nat) (t : TickState σ) : List Message :=
  match t.jobs[i]? with
  | none => []
  | some job => t.kernel.movePosts job

/-- The messages that the `i`-th job puts on the bus along a schedule. -/
def postedBy (code : AgentCode σ) (async : Bool) (i : Nat) (sched : List Nat) (t : TickState σ) :
    List Message :=
  ((Schedule.trace (advance code async) posts sched t).filter (·.1 = i)).map Prod.snd

end TickState

/-! ## The jobs of a tick -/

/-- Where the step of a job starts, when its agent is `a`. -/
def Job.starts (code : AgentCode σ) (k : Kernel σ) (job : Job σ) (a : Agent σ) :
    Body σ × StepProg σ :=
  (a.body, code.stepOf { a with state := .running } (k.tick + 1) job.inbox)

/-- The job, whose agent was `a` at the start of the tick and is `b` now, has
followed the program of its step and put the messages `posted` on the bus. -/
def Job.Follows (code : AgentCode σ) (async : Bool) (k : Kernel σ) (job : Job σ) (a b : Agent σ)
    (posted : List Message) : Prop :=
  (job.phase = .pending ∧ b.body = a.body ∧ posted = [])
  ∨ ∃ deals rest, Runs (StepProg.Next job.name) (job.starts code k a) deals (b.body, rest)
      ∧ deals.filterMap Deal.call = job.phase.calls ∧ deals.filterMap Deal.posted = posted
      ∧ job.phase.inbox? = some ((deals.filterMap Deal.inbox).getLast?.getD job.inbox)
      ∧ job.phase.Leaves async rest

/-- One action of a job goes on with its program. -/
theorem Job.Follows.move {code : AgentCode σ} {async : Bool} {k : Kernel σ} {t : TickState σ}
    (hin : InTick k t) {job : Job σ} {a b b' : Agent σ} {posted : List Message}
    (h : job.Follows code async k a b posted) (ha : k.objects[job.ref]? = some a)
    (hjob : job ∈ t.jobs) (hwf : k.Wf) (hb : t.kernel.objects[job.ref]? = some b)
    (hb' : (t.kernel.moveJob code async job).1.objects[job.ref]? = some b') :
    Job.Follows code async k { job with phase := (t.kernel.moveJob code async job).2 } a b'
      (posted ++ t.kernel.movePosts job) := by
  unfold Kernel.movePosts
  unfold Kernel.moveJob at hb' ⊢
  rcases h with ⟨hp, -, rfl⟩ | ⟨deals, rest, hrun, hcalls, rfl, hinbox, hleaves⟩
  · -- the step starts, on the object as it was at the start of the tick
    obtain ⟨c, hc, -, hsame⟩ := hin.object _ a ha
    have hpending : ∀ job' ∈ t.jobs, job'.ref = job.ref → job'.phase.isPending = true := by
      intro job' hjob' href
      rw [List.inj_on_of_nodup_map (hin.refs_nodup hwf) hjob' hjob href, hp]
      rfl
    obtain rfl := hsame hpending
    rw [hb] at hc
    cases hc
    simp only [hp, Kernel.start, hb] at hb' ⊢
    simp only [Kernel.setState, Kernel.modifyAgent, List.getElem?_modify, hb] at hb'
    simp only [if_true, Option.map_eq_map, Option.map_some, Option.some.injEq] at hb'
    subst hb'
    refine .inr ⟨[], _, .nil, rfl, rfl, rfl, ?_⟩
    simp [Phase.Leaves, hin.tick]
  · cases hp : job.phase with
    | pending => rw [hp] at hleaves; exact absurd hleaves id
    | running calls inbox left =>
      rw [hp] at hleaves hcalls hinbox
      obtain rfl : left = rest := hleaves
      obtain rfl : inbox = _ := Option.some.inj hinbox
      simp only [hp] at hb' ⊢
      obtain ⟨c, hc, hcases⟩ := t.kernel.act_next async job.name calls _ hb left
      rw [hb'] at hc
      cases hc
      right
      rcases hcases with ⟨deal, q, hnext, hphase, hpost⟩ | ⟨hbody, hend, hkept, hlist, hnone⟩
      · rw [hphase, hpost]
        refine ⟨deals ++ [deal], q, hrun.snoc hnext, ?_, ?_, ?_, rfl⟩
        · rw [List.filterMap_append, hcalls]
          cases hcall : deal.call <;> simp [Phase.calls, hcall]
        · rw [List.filterMap_append]
          cases hposted : deal.posted <;> simp [hposted]
        · rw [List.filterMap_append]
          cases hlist : deal.inbox <;> simp [Phase.inbox?, hlist]
      · refine ⟨deals, left, by rw [hbody]; exact hrun, ?_, by simp [hnone], hlist, hend⟩
        rw [hcalls]
        exact hkept.symm
    | returned | failed | escaped =>
      simp only [hp] at hb'
      rw [hb] at hb'
      cases hb'
      rw [hp] at hleaves hcalls hinbox
      exact .inr ⟨deals, rest, hrun, hcalls, (List.append_nil _).symm, hinbox, hleaves⟩

/-- The jobs of the tick, which started from `k`, have followed their programs. -/
def Followed (code : AgentCode σ) (async : Bool) (k : Kernel σ) (t : TickState σ)
    (trace : List (Nat × Message)) : Prop :=
  InTick k t ∧ ∀ (i : Nat) (job : Job σ), t.jobs[i]? = some job →
    ∀ a b, k.objects[job.ref]? = some a → t.kernel.objects[job.ref]? = some b →
    job.Follows code async k a b ((trace.filter (·.1 = i)).map Prod.snd)

namespace Followed

variable {code : AgentCode σ} {async : Bool} {k : Kernel σ} {t : TickState σ}
  {trace : List (Nat × Message)}

theorem begin (hwf : k.Wf) (code : AgentCode σ) (async : Bool) :
    Followed code async k k.beginTick [] := by
  refine ⟨InTick.begin hwf, fun i job hjob a b ha hb => .inl ?_⟩
  obtain ⟨hphase, -⟩ := Kernel.object_of_mem_beginTick (List.mem_of_getElem? hjob)
  rw [Kernel.beginTick_objects, ha] at hb
  cases hb
  exact ⟨hphase, rfl, rfl⟩

/-- One move keeps every job on its course. -/
theorem advance (h : Followed code async k t trace) (hwf : k.Wf) (i : Nat) :
    Followed code async k (t.advance code async i) (trace ++ (t.posts i).map (i, ·)) := by
  obtain ⟨hin, hfollows⟩ := h
  refine ⟨hin.advance hwf code async i, fun j job' hj a b' ha hb' => ?_⟩
  rw [List.filter_append, List.map_append]
  cases hi : t.jobs[i]? with
  | none =>
    rw [TickState.advance_of_none hi] at hj hb'
    simpa [TickState.posts, hi] using hfollows j job' hj a b' ha hb'
  | some job =>
    have hjob : job ∈ t.jobs := List.mem_of_getElem? hi
    rw [TickState.kernel_advance hi] at hb'
    rw [TickState.getElem?_advance hi] at hj
    by_cases hji : j = i
    · subst hji
      rw [if_pos rfl] at hj
      cases hj
      obtain ⟨b, hb, -⟩ := hin.job_object hwf hjob
      have hmove := (hfollows j job hi a b ha hb).move hin ha hjob hwf hb hb'
      have hposts : (((t.posts j).map (j, ·)).filter fun p => decide (p.1 = j)).map Prod.snd
          = t.kernel.movePosts job := by
        simp [TickState.posts, hi, List.filter_map, Function.comp_def]
      rwa [hposts]
    · rw [if_neg hji] at hj
      have hne : job'.ref ≠ job.ref :=
        fun href => hji (eq_index_of_nodup_map (hin.refs_nodup hwf) hj hi href)
      have heff := t.kernel.moveJob_effect code async job (r := true) (by simp)
      obtain ⟨b, hb, -⟩ := hin.job_object hwf (List.mem_of_getElem? hj)
      obtain ⟨c, hc, -, hframe⟩ := heff.object hb
      rw [hb', hframe hne] at hc
      cases hc
      have hnone : (((t.posts i).map (i, ·)).filter fun p => decide (p.1 = j)).map Prod.snd
          = [] := by
        simp [List.filter_map, Function.comp_def, Ne.symm hji]
      rw [hnone, List.append_nil]
      exact hfollows j job' hj a b' ha hb

/-- **Every job follows its own program**, in any order of actions. -/
theorem exec (hwf : k.Wf) (code : AgentCode σ) (async : Bool) (sched : List Nat) :
    Followed code async k (k.beginTick.exec code async sched)
      (Schedule.trace (TickState.advance code async) TickState.posts sched k.beginTick) := by
  have h := Schedule.exec_trace_induction (I := Followed code async k)
    (fun i t trace h => h.advance hwf i) sched (Followed.begin hwf code async)
  rwa [List.nil_append] at h

end Followed

end TitoOS
