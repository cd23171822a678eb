import TitoOS.Kernel.InTick

/-!
# Deeds

What the step of an agent that only sends, broadcasts, waits, exits and raises
does in a tick does not depend on the other agents: it is a function of its own
object, the tick, its inbox and the names that have a mailbox, which no such
agent changes. That function is the job's `deed`. Every action of a job is the
first part of its deed and leaves the deeds of the others alone
(`deed_advance_self`, `deed_advance_other`), so the order of actions decides
only how the marks of different jobs are interleaved.
-/

namespace TitoOS

variable {σ : Type}

/-! ## Plain steps -/

/-- The node is `send`, `broadcast`, `wait`, `exit`, an assignment to the agent's
own state, a return or a raise. -/
def StepProg.isPlain : StepProg σ → Prop
  | .ret | .raise _ | .coroutine _ => True
  | .store .. | .send .. | .broadcast .. | .wait _ | .exit _ => True
  | _ => False

/-- The step only sends, broadcasts, waits, exits, returns and raises. -/
abbrev StepProg.Plain (p : StepProg σ) : Prop := p.Every isPlain

/-- All agents' steps do. -/
def AgentCode.Plain (code : AgentCode σ) : Prop :=
  ∀ s a tick inbox, (code.step s a tick inbox).Plain

theorem AgentCode.Plain.stepOf {code : AgentCode σ} (h : code.Plain) (a : Agent σ)
    (tick : Int) (inbox : List Message) : (code.stepOf a tick inbox).Plain := by
  unfold AgentCode.stepOf
  split
  · exact h ..
  · trivial

/-- What is left of a job's step is plain. -/
def Job.Plain (job : Job σ) : Prop :=
  match job.phase with
  | .running _ _ rest => rest.Plain
  | _ => True

/-! ## Deeds -/

/-- What a step leaves outside its own agent: a message the bus accepted, or a
recorded failure. -/
inductive Mark where
  | mail (m : Message)
  | failure (name : String) (e : Exc)
  deriving DecidableEq

namespace Mark

/-- The mark is mail for `x`. -/
def mailFor (x : String) : Mark → Bool
  | mail m => decide (m.addresses x)
  | failure .. => false

def isFailure : Mark → Bool
  | mail _ => false
  | failure .. => true

/-- The messages among the marks. -/
def mails (marks : List Mark) : List Message :=
  marks.filterMap fun
    | mail m => some m
    | failure .. => none

/-- The entries of the error log among the marks. -/
def failures (marks : List Mark) : List (String × Exc) :=
  marks.filterMap fun
    | mail _ => none
    | failure name e => some (name, e)

end Mark

/-- What a step does from some point on: the agent object and the phase it ends
in, and the marks it leaves, in order. -/
structure Deed (σ : Type) where
  agent : Agent σ
  phase : Phase σ
  marks : List Mark

namespace Deed

/-- The deed with marks left before it. -/
def after (marks : List Mark) (d : Deed σ) : Deed σ := { d with marks := marks ++ d.marks }

@[simp] theorem after_nil (d : Deed σ) : d.after [] = d := rfl

/-- The agent is finished, and will not be restarted. -/
def ends (d : Deed σ) : Bool :=
  !d.agent.isAlive && !(d.phase.isFailed && Kernel.mayRestart d.agent)

end Deed

/-- The message as the bus takes it. -/
def MessageBus.accepted (bus : MessageBus) (m : Message) : List Mark :=
  if (bus.send m).isOk then [.mail m] else []

/-- What a plain step does: an agent `a` named `name` that has made `calls`. -/
def StepProg.deed (bus : MessageBus) (name : String) :
    StepProg σ → List Call → List Message → Agent σ → Deed σ
  | .raise e, calls, box, a =>
      if e.isException then
        ⟨{ a with state := .failed }, .failed calls box, [.failure name e]⟩
      else ⟨a, .escaped e calls box, []⟩
  | .store s rest, calls, box, a => deed bus name rest calls box { a with body := .user s }
  | .send recipient payload metadata rest, calls, box, a =>
      let m : Message := { sender := name, recipient, payload, metadata }
      (deed bus name (rest ((bus.send m).map fun _ => ())) (calls ++ [.send recipient]) box a).after
        (bus.accepted m)
  | .broadcast payload metadata rest, calls, box, a =>
      let m : Message := { sender := name, recipient := BROADCAST, payload, metadata }
      (deed bus name rest (calls ++ [.broadcast]) box a).after (bus.accepted m)
  | .wait rest, calls, box, a =>
      deed bus name rest (calls ++ [.wait]) box { a with state := .waiting }
  | .exit rest, calls, box, a =>
      deed bus name rest (calls ++ [.exit]) box { a with state := .done }
  | _, calls, box, a =>
      ⟨if a.state = .running then { a with state := .ready } else a, .returned calls box, []⟩

/-- What the job of the agent object `a` still does in tick `tick`. -/
def Job.deed (code : AgentCode σ) (bus : MessageBus) (tick : Int) (job : Job σ) (a : Agent σ) :
    Deed σ :=
  match job.phase with
  | .pending =>
      (code.stepOf { a with state := .running } tick job.inbox).deed bus job.name [] job.inbox
        { a with state := .running }
  | .running calls inbox rest => rest.deed bus job.name calls inbox a
  | phase => ⟨a, phase, []⟩

/-! ## Buses with the same names -/

namespace MessageBus

variable {bus bus' : MessageBus}

theorem send_answer_congr (h : ∀ x, x ∈ bus'.mailboxes.keys ↔ x ∈ bus.mailboxes.keys)
    (m : Message) : (bus'.send m).map (fun _ => ()) = (bus.send m).map fun _ => () := by
  cases hsend : bus.send m with
  | error e => rw [send_error_congr (fun x => (h x).symm) hsend]
  | ok b =>
    obtain ⟨b', hb'⟩ := send_ok_iff.mpr ((send_ok_iff.mp ⟨b, hsend⟩).imp_right (h _).mpr)
    rw [hb']
    rfl

theorem accepted_congr (h : ∀ x, x ∈ bus'.mailboxes.keys ↔ x ∈ bus.mailboxes.keys)
    (m : Message) : bus'.accepted m = bus.accepted m := by
  have hanswer := send_answer_congr h m
  unfold accepted
  cases hb : bus.send m <;> cases hb' : bus'.send m <;>
    simp_all [Except.map, Except.isOk, Except.toBool]

end MessageBus

/-- A deed depends on the names of the mailboxes only. -/
theorem StepProg.deed_congr {bus bus' : MessageBus}
    (h : ∀ x, x ∈ bus'.mailboxes.keys ↔ x ∈ bus.mailboxes.keys) (name : String)
    (prog : StepProg σ) (calls : List Call) (inbox : List Message) (a : Agent σ) :
    prog.deed bus' name calls inbox a = prog.deed bus name calls inbox a := by
  induction prog generalizing calls inbox a with
  | store _ _ ih | wait _ ih | exit _ ih => exact ih ..
  | send recipient payload metadata rest ih =>
    unfold deed
    simp only [MessageBus.send_answer_congr h, MessageBus.accepted_congr h, ih]
  | broadcast payload metadata rest ih =>
    unfold deed
    simp only [MessageBus.accepted_congr h, ih]
  | _ => rfl

theorem Job.deed_congr {bus bus' : MessageBus}
    (h : ∀ x, x ∈ bus'.mailboxes.keys ↔ x ∈ bus.mailboxes.keys) (code : AgentCode σ)
    (tick : Int) (job : Job σ) (a : Agent σ) :
    job.deed code bus' tick a = job.deed code bus tick a := by
  unfold deed
  split
  · exact StepProg.deed_congr h ..
  · exact StepProg.deed_congr h ..
  · rfl

/-! ## One action -/

/-- The marks the next action of a plain job leaves. -/
def Kernel.moveMarks (k : Kernel σ) (job : Job σ) : List Mark :=
  match job.phase with
  | .running _ _ (.raise e) => if e.isException then [.failure job.name e] else []
  | .running _ _ rest => ((outgoing job.name rest).map k.bus.accepted).getD []
  | _ => []

/-- `k'` is `k` with `marks` left in it and the object at `ref` changed. -/
structure Kernel.Marked (k : Kernel σ) (ref : Nat) (marks : List Mark) (k' : Kernel σ) : Prop where
  agents : k'.agents = k.agents
  tick : k'.tick = k.tick
  stopReason : k'.stopReason = k.stopReason
  length : k'.objects.length = k.objects.length
  others : ∀ i, i ≠ ref → k'.objects[i]? = k.objects[i]?
  errors : k'.errors = k.errors ++ Mark.failures marks
  box : ∀ x, k'.bus.mailboxes.get? x = (k.bus.mailboxes.get? x).map fun mailbox =>
    mailbox ++ Mark.mails (marks.filter (Mark.mailFor x))

namespace Kernel.Marked

variable {k k' : Kernel σ} {ref : Nat} {marks : List Mark}

theorem refl (k : Kernel σ) (ref : Nat) : k.Marked ref [] k where
  agents := rfl
  tick := rfl
  stopReason := rfl
  length := rfl
  others := fun _ _ => rfl
  errors := by simp [Mark.failures]
  box := by simp [Mark.mails]

theorem modifyAgent (k : Kernel σ) (ref : Nat) (f : Agent σ → Agent σ) :
    k.Marked ref [] (k.modifyAgent ref f) :=
  { refl k ref with
    length := by simp
    others := by
      intro i hi
      rw [getElem?_modifyAgent]
      simp [hi] }

theorem recordFailure (k : Kernel σ) (ref : Nat) (name : String) (e : Exc) :
    k.Marked ref [.failure name e] (k.recordFailure ref name e) :=
  { modifyAgent k ref fun a => { a with state := .failed } with
    errors := rfl
    box := by simp [Mark.mailFor, Mark.mails, Kernel.recordFailure, Kernel.setState] }

theorem ctxSend (k : Kernel σ) (ref : Nat) (name recipient : String) (payload : Value)
    (metadata : Metadata) :
    k.Marked ref (k.bus.accepted { sender := name, recipient, payload, metadata })
      (k.ctxSend name recipient payload metadata).1 := by
  unfold Kernel.ctxSend MessageBus.post MessageBus.accepted
  cases hsend : k.bus.send { sender := name, recipient, payload, metadata } with
  | error e => exact refl k ref
  | ok bus =>
    refine { refl k ref with
      errors := by simp [Except.isOk, Except.toBool, Mark.failures]
      box := fun x => ?_ }
    show bus.mailboxes.get? x = _
    rw [MessageBus.get?_send hsend, MessageBus.deliveredTo_deliveries]
    cases hx : k.bus.mailboxes.get? x with
    | none => rfl
    | some mailbox =>
      have hmem : x ∈ k.bus.mailboxes.keys := Dict.mem_keys_of_get? hx
      by_cases haddr : Message.addresses { sender := name, recipient, payload, metadata } x <;>
        simp [Except.isOk, Except.toBool, Mark.mailFor, Mark.mails, haddr, hmem]

theorem mem_keys (h : k.Marked ref marks k') (x : String) :
    x ∈ k'.bus.mailboxes.keys ↔ x ∈ k.bus.mailboxes.keys := by
  rw [Dict.mem_keys_iff, Dict.mem_keys_iff, h.box x]
  simp

end Kernel.Marked

theorem Kernel.ctxSend_answer (k : Kernel σ) (name recipient : String) (payload : Value)
    (metadata : Metadata) :
    (k.ctxSend name recipient payload metadata).2
      = (k.bus.send { sender := name, recipient, payload, metadata }).map fun _ => () := by
  unfold ctxSend MessageBus.post
  cases k.bus.send { sender := name, recipient, payload, metadata } <;> rfl

/-- **What one action of a plain job does**: it leaves its marks, changes at most
its own object, and is the first part of the job's deed. -/
theorem Kernel.moveJob_plain {code : AgentCode σ} (hcode : code.Plain) (k : Kernel σ)
    {job : Job σ} (h : job.Plain) :
    k.Marked job.ref (k.moveMarks job) (k.moveJob code false job).1
      ∧ Job.Plain { job with phase := (k.moveJob code false job).2 }
      ∧ ∀ a, k.objects[job.ref]? = some a → ∃ a',
          (k.moveJob code false job).1.objects[job.ref]? = some a'
          ∧ job.deed code k.bus k.tick a
            = (Job.deed code k.bus k.tick
                { job with phase := (k.moveJob code false job).2 } a').after (k.moveMarks job) := by
  have hmodify : ∀ (f : Agent σ → Agent σ) a, k.objects[job.ref]? = some a →
      (k.modifyAgent job.ref f).objects[job.ref]? = some (f a) := by
    intro f a ha
    rw [getElem?_modifyAgent, ha]
    simp
  unfold moveJob moveMarks
  unfold Job.Plain at h
  unfold Job.deed
  cases hp : job.phase with
  | pending =>
    simp only [start]
    cases ho : k.objects[job.ref]? with
    | none => exact ⟨.refl k _, trivial, fun a ha => by cases ha⟩
    | some b =>
      refine ⟨.modifyAgent .., hcode.stepOf .., fun a ha => ?_⟩
      cases ha
      exact ⟨_, hmodify _ _ ho, rfl⟩
  | returned | failed | escaped =>
    exact ⟨.refl k _, trivial, fun a ha => ⟨a, ha, rfl⟩⟩
  | running calls inbox rest =>
    rw [hp] at h
    cases rest with
    | ret | coroutine =>
      exact ⟨.modifyAgent .., trivial, fun a ha => ⟨_, hmodify _ a ha, rfl⟩⟩
    | raise e =>
      simp only [act]
      cases he : e.isException with
      | true =>
        refine ⟨.recordFailure .., trivial, fun a ha => ⟨_, hmodify _ a ha, ?_⟩⟩
        simp [StepProg.deed, he, Deed.after]
      | false =>
        refine ⟨.refl k _, trivial, fun a ha => ⟨a, ha, ?_⟩⟩
        simp [StepProg.deed, he]
    | store s rest | wait rest | exit rest =>
      exact ⟨.modifyAgent .., h.2, fun a ha => ⟨_, hmodify _ a ha, rfl⟩⟩
    | send recipient payload metadata rest =>
      -- the bus answers from the names of the mailboxes, which no plain step changes
      refine ⟨.ctxSend .., h.2 _ (ctxSend_answers _ _ _ _ _), fun a ha => ⟨a, ?_, ?_⟩⟩
      · exact (congrArg (·[job.ref]?) (objects_ctxSend ..)).trans ha
      · simp only [StepProg.deed, act, ctxSend_answer]
        rfl
    | broadcast payload metadata rest =>
      refine ⟨.ctxSend .., h.2, fun a ha => ⟨a, ?_, rfl⟩⟩
      exact (congrArg (·[job.ref]?) (objects_ctxSend ..)).trans ha
    | spawn | inbox | register | unregister | dropMailbox => exact absurd h.1 id

/-! ## A tick of plain agents -/

namespace TickState

/-- What the `i`-th job still does. -/
def deed? (code : AgentCode σ) (t : TickState σ) (i : Nat) : Option (Deed σ) :=
  (t.jobs[i]?).bind fun job => (t.kernel.objects[job.ref]?).map fun a =>
    job.deed code t.kernel.bus t.kernel.tick a

/-- The marks the next action of the `i`-th job leaves. -/
def marks (i : Nat) (t : TickState σ) : List Mark :=
  match t.jobs[i]? with
  | none => []
  | some job => t.kernel.moveMarks job

/-- The marks a schedule leaves, in order. -/
def markLog (code : AgentCode σ) (sched : List Nat) (t : TickState σ) : List Mark :=
  Schedule.emitted (advance code false) marks sched t

end TickState

/-- `t` is a point of a tick of plain agents that started from `k`, with the
marks `log` left so far. -/
structure PlainTick (k : Kernel σ) (t : TickState σ) (log : List Mark) : Prop where
  inTick : InTick k t
  plain : ∀ job ∈ t.jobs, job.Plain
  agents : t.kernel.agents = k.agents
  length : t.kernel.objects.length = k.objects.length
  others : ∀ i, (∀ job ∈ t.jobs, job.ref ≠ i) → t.kernel.objects[i]? = k.objects[i]?
  errors : t.kernel.errors = k.errors ++ Mark.failures log
  box : ∀ x, t.kernel.bus.mailboxes.get? x
    = (k.beginTick.kernel.bus.mailboxes.get? x).map fun mailbox =>
      mailbox ++ Mark.mails (log.filter (Mark.mailFor x))

namespace PlainTick

variable {k : Kernel σ} {t : TickState σ} {log : List Mark} {code : AgentCode σ}

theorem begin (hwf : k.Wf) : PlainTick k k.beginTick [] where
  inTick := .begin hwf
  plain := by
    intro job hjob
    obtain ⟨a, -, -, -, -, heq⟩ := (Kernel.mem_beginTick_jobs hwf).mp hjob
    rw [heq]
    trivial
  agents := rfl
  length := rfl
  others := fun _ _ => rfl
  errors := by simp [Mark.failures]
  box := by simp [Mark.mails]

theorem advance (h : PlainTick k t log) (hwf : k.Wf) (hcode : code.Plain) (i : Nat) :
    PlainTick k (t.advance code false i) (log ++ t.marks i) := by
  cases hi : t.jobs[i]? with
  | none =>
    have hmarks : t.marks i = [] := by simp [TickState.marks, hi]
    rwa [TickState.advance_of_none hi, hmarks, List.append_nil]
  | some job =>
    have hjob : job ∈ t.jobs := List.mem_of_getElem? hi
    obtain ⟨hmarked, hplain, -⟩ := Kernel.moveJob_plain hcode t.kernel (h.plain job hjob)
    have hker : (t.advance code false i).kernel = (t.kernel.moveJob code false job).1 :=
      TickState.kernel_advance hi
    have hmarks : t.marks i = t.kernel.moveMarks job := by simp [TickState.marks, hi]
    rw [hmarks]
    constructor
    case inTick => exact h.inTick.advance hwf code false i
    case plain => exact TickState.forall_advance hi h.plain hplain
    case agents => rw [hker, hmarked.agents, h.agents]
    case length => rw [hker, hmarked.length, h.length]
    case others =>
      intro r hr
      have hr' : ∀ job ∈ t.jobs, job.ref ≠ r := by
        intro job' hjob' href
        obtain ⟨job'', hjob'', href', -⟩ :=
          TickState.exists_of_fixed (TickState.fixed_advance code false i t).symm hjob'
        exact hr job'' hjob'' (href'.trans href)
      rw [hker, hmarked.others r (Ne.symm (hr' job hjob)), h.others r hr']
    case errors => rw [hker, hmarked.errors, h.errors]; simp [Mark.failures]
    case box =>
      intro x
      rw [hker, hmarked.box, h.box, Option.map_map]
      simp [Function.comp_def, Mark.mails]

/-- The marks of a schedule account for all that a tick of plain agents changes
besides the objects at work. -/
theorem exec (hwf : k.Wf) (hcode : code.Plain) (sched : List Nat) :
    PlainTick k (k.beginTick.exec code false sched) (k.beginTick.markLog code sched) := by
  have h : PlainTick k (k.beginTick.exec code false sched)
      ([] ++ Schedule.emitted (TickState.advance code false) TickState.marks sched k.beginTick) :=
    Schedule.exec_emitted_induction (I := fun t log => PlainTick k t log)
      (fun i t log h => h.advance hwf hcode i) sched (begin hwf)
  rwa [List.nil_append] at h

theorem mem_keys (h : PlainTick k t log) (x : String) :
    x ∈ t.kernel.bus.mailboxes.keys ↔ x ∈ k.bus.mailboxes.keys := by
  rw [← Kernel.beginTick_keys k, Dict.mem_keys_iff, Dict.mem_keys_iff, h.box x]
  simp

/-! ## Deeds along a schedule -/

/-- Every job has a deed. -/
theorem deed?_of_job (h : PlainTick k t log) (hwf : k.Wf) (code : AgentCode σ) {i : Nat}
    {job : Job σ} (hi : t.jobs[i]? = some job) :
    ∃ a, t.kernel.objects[job.ref]? = some a
      ∧ t.deed? code i = some (job.deed code t.kernel.bus t.kernel.tick a) := by
  obtain ⟨a, ha, -⟩ := h.inTick.job_object hwf (List.mem_of_getElem? hi)
  exact ⟨a, ha, by simp [TickState.deed?, hi, ha]⟩

/-- **An action is the first part of its job's deed.** -/
theorem deed_advance_self (h : PlainTick k t log) (hcode : code.Plain) (i : Nat) :
    t.deed? code i = ((t.advance code false i).deed? code i).map (Deed.after (t.marks i)) := by
  cases hi : t.jobs[i]? with
  | none => simp [TickState.deed?, TickState.advance_of_none hi, hi]
  | some job =>
    have hjob : job ∈ t.jobs := List.mem_of_getElem? hi
    obtain ⟨hmarked, -, hdeed⟩ := Kernel.moveJob_plain hcode t.kernel (h.plain job hjob)
    have hmarks : t.marks i = t.kernel.moveMarks job := by simp [TickState.marks, hi]
    have hjobs : (t.advance code false i).jobs[i]?
        = some { job with phase := (t.kernel.moveJob code false job).2 } := by
      rw [TickState.getElem?_advance hi, if_pos rfl]
    have hker : (t.advance code false i).kernel = (t.kernel.moveJob code false job).1 :=
      TickState.kernel_advance hi
    rw [TickState.deed?, TickState.deed?, hi, hjobs, hker, hmarks, hmarked.tick]
    simp only [Option.bind_some]
    cases ha : t.kernel.objects[job.ref]? with
    | none =>
      have : (t.kernel.moveJob code false job).1.objects[job.ref]? = none := by
        rw [List.getElem?_eq_none_iff] at ha ⊢
        rwa [hmarked.length]
      rw [this]
      rfl
    | some a =>
      obtain ⟨a', ha', heq⟩ := hdeed a ha
      rw [ha', Option.map_some, Option.map_some, Option.map_some, heq]
      congr 2
      exact (Job.deed_congr hmarked.mem_keys ..).symm

/-- **An action leaves the deeds of the other jobs alone.** -/
theorem deed_advance_other (h : PlainTick k t log) (hwf : k.Wf) (hcode : code.Plain) {i j : Nat}
    (hji : j ≠ i) : (t.advance code false i).deed? code j = t.deed? code j := by
  cases hi : t.jobs[i]? with
  | none => rw [TickState.advance_of_none hi]
  | some job =>
    have hjob : job ∈ t.jobs := List.mem_of_getElem? hi
    obtain ⟨hmarked, -⟩ := Kernel.moveJob_plain hcode t.kernel (h.plain job hjob)
    have hker : (t.advance code false i).kernel = (t.kernel.moveJob code false job).1 :=
      TickState.kernel_advance hi
    rw [TickState.deed?, TickState.deed?, TickState.getElem?_advance hi, if_neg hji, hker,
      hmarked.tick]
    cases hj : t.jobs[j]? with
    | none => rfl
    | some other =>
      have hother : other ∈ t.jobs := List.mem_of_getElem? hj
      have hne : other.ref ≠ job.ref := by
        intro href
        exact hji (eq_index_of_nodup_map (h.inTick.refs_nodup hwf) hj hi href)
      simp only [Option.bind_some, hmarked.others _ hne]
      congr 1
      funext a
      exact Job.deed_congr hmarked.mem_keys ..

/-- The deed of a job is what it leaves behind along a schedule and what it
still does at its end. -/
theorem deed_exec (h : PlainTick k t log) (hwf : k.Wf) (hcode : code.Plain) (sched : List Nat)
    (i : Nat) :
    ∃ ms, t.deed? code i = ((t.exec code false sched).deed? code i).map (Deed.after ms) := by
  induction sched generalizing t log with
  | nil => exact ⟨[], by show _ = (t.deed? code i).map _; cases t.deed? code i <;> rfl⟩
  | cons j rest ih =>
    obtain ⟨ms, hms⟩ := ih (h.advance hwf hcode j)
    by_cases hij : i = j
    · subst hij
      refine ⟨t.marks i ++ ms, ?_⟩
      rw [h.deed_advance_self hcode, hms, Option.map_map]
      congr 1
      funext d
      simp [Deed.after]
    · refine ⟨ms, ?_⟩
      rw [← h.deed_advance_other hwf hcode hij, hms]
      rfl

/-- What the jobs have left to leave behind is a schedule's order-independent
part. -/
theorem faithful (hwf : k.Wf) (hcode : code.Plain) :
    Schedule.Faithful (TickState.advance code false) TickState.marks
      (fun t => ∃ log, PlainTick k t log)
      (fun i t => ((t.deed? code i).map Deed.marks).getD []) where
  keeps := fun i t ⟨_, h⟩ => ⟨_, h.advance hwf hcode i⟩
  own := by
    rintro i t ⟨log, h⟩
    have hself := h.deed_advance_self hcode i
    cases hi : t.jobs[i]? with
    | none => simp [TickState.marks, TickState.advance_of_none hi, hi]
    | some job =>
      obtain ⟨a, -, hdeed⟩ := h.deed?_of_job hwf code hi
      rw [hdeed] at hself
      obtain ⟨d, hd, heq⟩ := Option.map_eq_some_iff.mp hself.symm
      rw [hdeed, hd, ← heq]
      rfl
  other := by
    rintro i j t ⟨log, h⟩ hji
    rw [h.deed_advance_other hwf hcode hji]

end PlainTick

end TitoOS
