import TitoOS.Isolation

/-!
# Alive and addressable

The registry and the mailboxes are two tables keyed by name, updated under two
locks. Agents may here use the kernel's `register` and `unregister` in their
steps. The tables agree at every boundary (`Mailed`) as long as

* no name is registered between the two halves of its `unregister` (`NoGap`), and
* no agent that finishes in a tick has its name taken by a new agent in the same
  tick (`NoHeir`), whose mailbox the barrier would then reclaim.

Inside a tick the tables agree on every name but those in the middle of being
unregistered (`Linked`).
-/

namespace TitoOS

variable {σ : Type}

/-! ## Whole unregistrations -/

/-- The step takes a mailbox away only as the second half of `unregister`. -/
abbrev StepProg.Whole (p : StepProg σ) : Prop :=
  p.Every fun
    | .dropMailbox .. => False
    | _ => True

/-- The name whose `unregister` the job is in the middle of. -/
def Job.unregistering? (job : Job σ) : Option String :=
  match job.phase with
  | .running _ _ (.dropMailbox n _) => some n
  | _ => none

/-- The name the next action of the job registers. -/
def Job.registers? (job : Job σ) : Option String :=
  match job.phase with
  | .running _ _ (.spawn child _) => some child.name
  | .running _ _ (.register agent _ _) => some agent.name
  | _ => none

/-- What is left of the job's step takes mailboxes away as a whole. -/
def Job.Whole (job : Job σ) : Prop :=
  match job.phase with
  | .running _ _ (.dropMailbox _ rest) => rest.Whole
  | .running _ _ rest => rest.Whole
  | _ => True

/-- Every agent unregisters by `Kernel.unregister` only. -/
def AgentCode.Whole (code : AgentCode σ) : Prop :=
  ∀ s a tick inbox, (code.step s a tick inbox).Whole

theorem AgentCode.Whole.stepOf {code : AgentCode σ} (h : code.Whole) (a : Agent σ)
    (tick : Int) (inbox : List Message) : (code.stepOf a tick inbox).Whole := by
  unfold AgentCode.stepOf
  split
  · exact h ..
  · trivial

/-- A step that takes mailboxes away as a whole does not begin with half of it. -/
theorem unregistering?_of_whole (job : Job σ) (calls : List Call) (inbox : List Message)
    {rest : StepProg σ} (h : rest.Whole) :
    Job.unregistering? { job with phase := .running calls inbox rest } = none
      ∧ Job.Whole { job with phase := .running calls inbox rest } := by
  cases rest with
  | dropMailbox => exact absurd h.1 id
  | _ => exact ⟨rfl, h⟩

/-! ## What an action does to the two tables -/

/-- The ways in which an action changes the names in the registry and on the
bus, with the name in the middle of being unregistered before and after it. -/
inductive Kernel.TableEffect (k : Kernel σ) (registers : Option String) :
    Option String → Option String → Kernel σ → Prop where
  | same {k' : Kernel σ} : k'.agents = k.agents → k'.bus.mailboxes.keys = k.bus.mailboxes.keys →
      TableEffect k registers none none k'
  | register (a : FreshAgent σ) (p : Option String) : registers = some a.name →
      a.name ∉ k.agents.keys →
      TableEffect k registers none none { k with
        objects := k.objects ++ [a.linked p]
        agents := k.agents.set a.name k.objects.length
        bus := k.bus.register a.name }
  | popAgent (n : String) : TableEffect k registers none (some n) (k.popAgent n)
  | dropMailbox (n : String) : TableEffect k registers (some n) none (k.dropMailbox n)

namespace Kernel

private theorem ctxSend_tables (k : Kernel σ) (registers : Option String) (name recipient : String)
    (payload : Value) (metadata : Metadata) :
    k.TableEffect registers none none (k.ctxSend name recipient payload metadata).1 := by
  unfold ctxSend MessageBus.post
  split
  · exact .same rfl (MessageBus.keys_send ‹_›)
  · exact .same rfl rfl

private theorem ctxRegister_tables (k : Kernel σ) (a : FreshAgent σ) (p : Option String) :
    k.TableEffect (some a.name) none none (k.ctxRegister a p).1 := by
  unfold ctxRegister
  split
  · obtain ⟨hnew, rfl⟩ := register_eq_ok_iff.mp ‹_›
    exact .register a p rfl hnew
  · exact .same rfl rfl

/-- **The classification of actions** by their effect on the tables. -/
theorem moveJob_tables {code : AgentCode σ} (hcode : code.Whole) (k : Kernel σ) (async : Bool)
    {job : Job σ} (h : job.Whole) :
    k.TableEffect job.registers? job.unregistering?
        (Job.unregistering? { job with phase := (k.moveJob code async job).2 })
        (k.moveJob code async job).1
      ∧ Job.Whole { job with phase := (k.moveJob code async job).2 } := by
  unfold moveJob
  unfold Job.Whole at h
  unfold Job.registers? Job.unregistering?
  cases hp : job.phase with
  | pending =>
    simp only [start]
    cases k.objects[job.ref]? with
    | none => exact ⟨.same rfl rfl, trivial⟩
    | some a =>
      obtain ⟨hnone, hwhole⟩ := unregistering?_of_whole job [] job.inbox
        (hcode.stepOf { a with state := .running } k.tick job.inbox)
      unfold Job.unregistering? at hnone
      rw [hnone]
      exact ⟨.same rfl rfl, hwhole⟩
  | returned | failed | escaped => exact ⟨.same rfl rfl, trivial⟩
  | running calls inbox rest =>
    rw [hp] at h
    -- what is left of a step that never leaves a removal half done is such a step again
    have hgo : ∀ calls' inbox' (rest' : StepProg σ), rest'.Whole → ∀ {regs} {old} {k' : Kernel σ},
        k.TableEffect regs old none k' →
        k.TableEffect regs old
          (Job.unregistering? { job with phase := .running calls' inbox' rest' }) k'
        ∧ Job.Whole { job with phase := .running calls' inbox' rest' } := by
      intro calls' inbox' rest' hrest regs old k' heff
      obtain ⟨hnone, hwhole⟩ := unregistering?_of_whole job calls' inbox' hrest
      exact ⟨hnone ▸ heff, hwhole⟩
    cases rest with
    | ret => exact ⟨.same rfl rfl, trivial⟩
    | raise e =>
      simp only [act]
      cases e.isException <;> exact ⟨.same rfl rfl, trivial⟩
    | coroutine body =>
      cases async
      · exact ⟨.same rfl rfl, trivial⟩
      · exact hgo _ _ _ h.2 (.same rfl rfl)
    | store s rest => exact hgo _ _ _ h.2 (.same rfl rfl)
    | inbox messages rest => exact hgo _ _ _ h.2 (.same rfl rfl)
    | send recipient payload metadata rest =>
      exact hgo _ _ _ (h.2 _ (ctxSend_answers _ _ _ _ _)) (ctxSend_tables ..)
    | broadcast payload metadata rest => exact hgo _ _ _ h.2 (ctxSend_tables ..)
    | spawn child rest =>
      exact hgo _ _ _ (h.2 _ (ctxRegister_answers _ _ _)) (ctxRegister_tables ..)
    | wait rest => exact hgo _ _ _ h.2 (.same rfl rfl)
    | exit rest => exact hgo _ _ _ h.2 (.same rfl rfl)
    | register agent p rest =>
      exact hgo _ _ _ (h.2 _ (ctxRegister_answers _ _ _)) (ctxRegister_tables ..)
    | unregister n rest => exact ⟨.popAgent n, h.2⟩
    | dropMailbox n rest => exact hgo _ _ _ h (.dropMailbox n)

/-- **An action keeps the tables in agreement**: the names with a mailbox are
those registered for an object that `fits`, but for the names being
unregistered, which are registered to nobody. These are the one the action
itself is in the middle of, and those of `others`. -/
theorem TableEffect.agree {k k1 : Kernel σ} {registers old new : Option String}
    (heff : k.TableEffect registers old new k1) {fits : Nat → Prop} {others : String → Prop}
    (hfits : fits k.objects.length)
    (hmail : ∀ x, ¬ (old = some x ∨ others x) →
      (x ∈ k.bus.mailboxes.keys ↔ ∃ ref, k.agents.get? x = some ref ∧ fits ref))
    (hgone : ∀ x, old = some x ∨ others x → x ∉ k.agents.keys)
    (hregs : ∀ n, registers = some n → ¬ (old = some n ∨ others n)) :
    (∀ x, ¬ (new = some x ∨ others x) →
      (x ∈ k1.bus.mailboxes.keys ↔ ∃ ref, k1.agents.get? x = some ref ∧ fits ref))
    ∧ ∀ x, new = some x ∨ others x → x ∉ k1.agents.keys := by
  cases heff with
  | same hagents hkeys =>
    simp only [hagents, hkeys]
    exact ⟨hmail, hgone⟩
  | register a p hreg hfresh =>
    have hnot := hregs a.name hreg
    constructor
    · intro x hx
      rw [MessageBus.mem_keys_register, Dict.get?_set]
      by_cases hxa : x = a.name
      · simp only [hxa, true_or, if_true, Option.some.injEq, true_iff]
        exact ⟨_, rfl, hfits⟩
      · simp only [hxa, false_or, if_false]
        exact hmail x hx
    · intro x hx
      have hxa : x ≠ a.name := by
        rintro rfl
        exact hnot hx
      simp [Dict.keys_set_of_not_mem hfresh, hxa, hgone x hx]
  | popAgent n =>
    constructor
    · intro x hx
      have hxn : x ≠ n := fun heq => hx (.inl (by rw [heq]))
      simp only [Kernel.popAgent, Dict.get?_erase, if_neg hxn]
      exact hmail x fun hor => hx (.inr (hor.resolve_left fun heq => by cases heq))
    · intro x hx
      rw [Kernel.popAgent, Dict.mem_keys_erase]
      rintro ⟨hne, hin⟩
      rcases hx with hx | hx
      · exact hne (Option.some.inj hx).symm
      · exact hgone x (.inr hx) hin
  | dropMailbox n =>
    constructor
    · intro x hx
      rw [Kernel.dropMailbox, MessageBus.mem_keys_unregister]
      by_cases hxn : x = n
      · -- the name dropped is registered to nobody
        subst hxn
        have hno : k.agents.get? x = none := Dict.get?_eq_none_iff.mpr (hgone x (.inl rfl))
        simp [hno]
      · simp only [ne_eq, hxn, not_false_eq_true, true_and]
        refine hmail x fun hor => ?_
        rcases hor with heq | hother
        · exact hxn (Option.some.inj heq).symm
        · exact hx (.inr hother)
    · intro x hx
      exact hgone x (.inr (hx.resolve_left fun heq => by cases heq))

end Kernel

/-! ## Agreement of the tables -/

/-- A kernel between ticks whose tables agree: the names with a mailbox are the
names of the live agents. -/
structure Kernel.Mailed (k : Kernel σ) : Prop where
  wf : k.Wf
  mail : ∀ x, x ∈ k.bus.mailboxes.keys ↔ k.isLive x = true

namespace TickState

/-- No name is registered while another job is in the middle of unregistering
it, all along a schedule. -/
def NoGap (code : AgentCode σ) (async : Bool) : List Nat → TickState σ → Prop
  | [], _ => True
  | i :: rest, t =>
    (∀ job, t.jobs[i]? = some job → ∀ n, job.registers? = some n →
      ∀ other ∈ t.jobs, other.unregistering? ≠ some n)
      ∧ NoGap code async rest (t.advance code async i)

/-- No agent that finishes in the tick leaves its name to a new agent. -/
def NoHeir (code : AgentCode σ) (t : TickState σ) : Prop :=
  ∀ job ∈ t.jobs, ∀ a, t.kernel.objects[job.ref]? = some a →
    (job.concluded code a).isAlive = false →
    ∀ ref, t.kernel.agents.get? job.name = some ref → ref = job.ref

/-- Some job is in the middle of unregistering `x`. -/
def Unregistering (t : TickState σ) (x : String) : Prop :=
  ∃ job ∈ t.jobs, job.unregistering? = some x

/-- `x` is registered for an agent that was alive when the tick began from `k`,
or that has been registered since. -/
def Boxed (k : Kernel σ) (t : TickState σ) (x : String) : Prop :=
  ∃ ref, t.kernel.agents.get? x = some ref
    ∧ (k.objects.length ≤ ref ∨ ∃ a, k.objects[ref]? = some a ∧ a.isAlive = true)

end TickState

/-- `t` is a point of a tick from `k` at which the tables agree, but for the
names in the middle of being unregistered. -/
structure Linked (k : Kernel σ) (t : TickState σ) : Prop where
  inTick : InTick k t
  whole : ∀ job ∈ t.jobs, job.Whole
  mail : ∀ x, ¬ t.Unregistering x → (x ∈ t.kernel.bus.mailboxes.keys ↔ t.Boxed k x)
  gone : ∀ x, t.Unregistering x → x ∉ t.kernel.agents.keys

namespace Linked

variable {k : Kernel σ} {t : TickState σ}

theorem begin (h : k.Mailed) : Linked k k.beginTick where
  inTick := .begin h.wf
  whole := by
    intro job hjob
    obtain ⟨a, -, -, -, -, heq⟩ := (Kernel.mem_beginTick_jobs h.wf).mp hjob
    rw [heq]
    trivial
  mail := by
    intro x _
    rw [Kernel.beginTick_keys, h.mail, Kernel.isLive_iff]
    constructor
    · rintro ⟨a, ha, halive⟩
      obtain ⟨ref, hreg, ho⟩ := Kernel.agent?_eq_some_iff.mp ha
      exact ⟨ref, hreg, .inr ⟨a, ho, halive⟩⟩
    · rintro ⟨ref, hreg, hor⟩
      obtain ⟨a, ha, ho, -⟩ := h.wf.agent? hreg
      refine ⟨a, ha, ?_⟩
      rcases hor with hle | ⟨b, hb, halive⟩
      · rw [List.getElem?_eq_none hle] at ho
        cases ho
      · rw [ho] at hb
        cases hb
        exact halive
  gone := by
    rintro x ⟨job, hjob, hx⟩
    obtain ⟨a, -, -, -, -, heq⟩ := (Kernel.mem_beginTick_jobs h.wf).mp hjob
    rw [heq] at hx
    cases hx

/-- The names being unregistered after a move. -/
theorem unregistering_advance (code : AgentCode σ) (async : Bool) {i : Nat} {job : Job σ}
    (hi : t.jobs[i]? = some job) (x : String) :
    (t.advance code async i).Unregistering x
      ↔ Job.unregistering? { job with phase := (t.kernel.moveJob code async job).2 } = some x
        ∨ ∃ j other, j ≠ i ∧ t.jobs[j]? = some other ∧ other.unregistering? = some x := by
  unfold TickState.Unregistering
  simp only [List.mem_iff_getElem?, TickState.getElem?_advance hi]
  constructor
  · rintro ⟨other, ⟨j, hj⟩, hx⟩
    split at hj
    · cases hj
      exact .inl hx
    · exact .inr ⟨j, other, ‹_›, hj, hx⟩
  · rintro (hx | ⟨j, other, hji, hj, hx⟩)
    · exact ⟨_, ⟨i, by rw [if_pos rfl]⟩, hx⟩
    · exact ⟨other, ⟨j, by rw [if_neg hji, hj]⟩, hx⟩

theorem unregistering_iff {i : Nat} {job : Job σ} (hi : t.jobs[i]? = some job) (x : String) :
    t.Unregistering x ↔ job.unregistering? = some x
      ∨ ∃ j other, j ≠ i ∧ t.jobs[j]? = some other ∧ other.unregistering? = some x := by
  constructor
  · rintro ⟨other, hmem, hx⟩
    obtain ⟨j, hj⟩ := List.mem_iff_getElem?.mp hmem
    by_cases hji : j = i
    · subst hji
      rw [hi] at hj
      cases hj
      exact .inl hx
    · exact .inr ⟨j, other, hji, hj, hx⟩
  · rintro (hx | ⟨j, other, -, hj, hx⟩)
    · exact ⟨job, List.mem_of_getElem? hi, hx⟩
    · exact ⟨other, List.mem_of_getElem? hj, hx⟩

/-- One move keeps the agreement, unless it registers a name that is being
unregistered. -/
theorem advance (h : Linked k t) (hwf : k.Wf) {code : AgentCode σ} (hcode : code.Whole)
    (async : Bool) (i : Nat)
    (hgap : ∀ job, t.jobs[i]? = some job → ∀ n, job.registers? = some n → ¬ t.Unregistering n) :
    Linked k (t.advance code async i) := by
  cases hi : t.jobs[i]? with
  | none => rwa [TickState.advance_of_none hi]
  | some job =>
    have hjob : job ∈ t.jobs := List.mem_of_getElem? hi
    obtain ⟨heff, hwhole⟩ := Kernel.moveJob_tables hcode t.kernel async (h.whole job hjob)
    have hker : (t.advance code async i).kernel = (t.kernel.moveJob code async job).1 :=
      TickState.kernel_advance hi
    have hold := unregistering_iff (t := t) hi
    have hnew := unregistering_advance code async hi
    obtain ⟨hmail, hgone⟩ := heff.agree (.inl h.inTick.length)
      (fun x hx => h.mail x (mt (hold x).mp hx)) (fun x hx => h.gone x ((hold x).mpr hx))
      (fun n hn hx => hgap job hi n hn ((hold n).mpr hx))
    constructor
    case inTick => exact h.inTick.advance hwf code async i
    case whole => exact TickState.forall_advance hi h.whole hwhole
    case mail =>
      intro x hx
      rw [TickState.Boxed, hker]
      exact hmail x (mt (hnew x).mpr hx)
    case gone =>
      intro x hx
      rw [hker]
      exact hgone x ((hnew x).mp hx)

/-- **The tables agree all along a tick**. -/
theorem exec {code : AgentCode σ} (hcode : code.Whole) (async : Bool) (sched : List Nat)
    (h : Linked k t) (hwf : k.Wf) (hgap : t.NoGap code async sched) :
    Linked k (t.exec code async sched) := by
  induction sched generalizing t with
  | nil => exact h
  | cons i rest ih =>
    refine ih (h.advance hwf hcode async i fun job hi n hn hu => ?_) hgap.2
    obtain ⟨other, hmem, hx⟩ := hu
    exact hgap.1 job hi n hn other hmem hx

end Linked

/-! ## What agreement gives -/

namespace Linked

variable {k : Kernel σ} {t : TickState σ}

/-- An agent that is alive, or was scheduled in this tick, has its mailbox owed. -/
theorem boxed (h : Linked k t) (hwf : k.Wf) {x : String} {ref : Nat} {b : Agent σ}
    (hreg : t.kernel.agents.get? x = some ref) (ho : t.kernel.objects[ref]? = some b)
    (hor : b.isAlive = true ∨ ∃ job ∈ t.jobs, job.ref = ref) : t.Boxed k x := by
  refine ⟨ref, hreg, ?_⟩
  rcases h.inTick.registry x ref hreg with hkreg | hnew
  · right
    by_cases hjob : ∃ job ∈ t.jobs, job.ref = ref
    · obtain ⟨job, hm, rfl⟩ := hjob
      obtain ⟨a, -, hko, -, halive, -, -⟩ := h.inTick.origin hwf hm
      exact ⟨a, hko, halive⟩
    · obtain ⟨a, -, hko, -⟩ := hwf.agent? hkreg
      obtain ⟨a', ho', -, hpend⟩ := h.inTick.object ref a hko
      rw [ho] at ho'
      cases ho'
      refine ⟨a, hko, ?_⟩
      rw [← hpend fun job hm href => absurd ⟨job, hm, href⟩ hjob]
      exact hor.resolve_right hjob
  · exact .inl hnew

theorem mem_mailboxes (h : Linked k t) {x : String} (hbox : t.Boxed k x) :
    x ∈ t.kernel.bus.mailboxes.keys := by
  obtain ⟨ref, hreg, -⟩ := id hbox
  exact (h.mail x fun hu => h.gone x hu (Dict.mem_keys_of_get? hreg)).mpr hbox

/-- A send to a live agent is accepted. -/
theorem send_ok (h : Linked k t) (hwf : k.Wf) {m : Message}
    (hlive : t.kernel.isLive m.recipient = true) : ∃ bus, t.kernel.bus.send m = .ok bus := by
  obtain ⟨a, ha, halive⟩ := Kernel.isLive_iff.mp hlive
  obtain ⟨ref, hreg, ho⟩ := Kernel.agent?_eq_some_iff.mp ha
  exact MessageBus.send_ok_iff.mpr (.inr (h.mem_mailboxes (h.boxed hwf hreg ho (.inl halive))))

/-- The parents to be notified have their mailboxes. -/
theorem parentsReachable (h : Linked k t) (hwf : k.Wf) : t.ParentsReachable := by
  rintro job - a - - parent - ⟨ref, b, hreg, hb, hor⟩
  refine .inr (h.mem_mailboxes (h.boxed hwf hreg hb (hor.imp_right ?_)))
  rintro ⟨-, job', hm, href⟩
  exact ⟨job', t.casualties_sublist.subset hm, href⟩

/-- Once every step has ended nothing is in the middle of being unregistered. -/
theorem not_unregistering (hcomplete : t.isComplete = true) (x : String) :
    ¬ t.Unregistering x := by
  rintro ⟨job, hjob, hx⟩
  have := TickState.isComplete_iff.mp hcomplete job hjob
  unfold Job.unregistering? at hx
  cases hp : job.phase <;> simp_all [Phase.isSettled]

/-- **The tables agree after the barrier**, if nobody that finished has left its
name to a new agent. -/
theorem mailed (h : Linked k t) (hwf : k.Wf) (hcomplete : t.isComplete = true)
    {code : AgentCode σ} (hheir : t.NoHeir code) {k' : Kernel σ} {names : List String}
    (hout : TickOutcome code k t k' names) : k'.Mailed := by
  constructor
  case wf => exact hout.wf h.inTick hwf
  case mail =>
    intro x
    have hbox : x ∈ k'.bus.mailboxes.keys ↔ t.Boxed k x
        ∧ ¬ ∃ job ∈ t.jobs, job.name = x ∧ k'.isFinishedAt job = true := by
      rw [← h.mail x (not_unregistering hcomplete x), Dict.mem_keys_iff, Dict.mem_keys_iff,
        hout.box]
      split <;> rename_i hfin
      · simp [hfin]
      · simp only [hfin, not_false_eq_true, and_true]
        cases t.kernel.bus.mailboxes.get? x <;> simp
    rw [hbox, Kernel.isLive_iff]
    simp only [Kernel.agent?_eq_some_iff, hout.agents]
    constructor
    · rintro ⟨⟨ref, hreg, hor⟩, hno⟩
      obtain ⟨b, hb, -⟩ := h.inTick.wf x ref hreg
      obtain ⟨c, hc, -, hother, hown⟩ := hout.object h.inTick hwf hb
      refine ⟨c, ⟨ref, hreg, hc⟩, ?_⟩
      by_cases hjob : ∃ job ∈ t.jobs, job.ref = ref
      · obtain ⟨job, hm, rfl⟩ := hjob
        rw [hown job hm rfl]
        -- the agent would have finished in this tick, and lost its mailbox
        by_contra hdead
        obtain ⟨a, hkreg, hko, -⟩ := h.inTick.origin hwf hm
        have hname : job.name = x := by
          rcases h.inTick.registry x _ hreg with hkx | hle
          · exact hwf.ref_inj hkreg hkx
          · rw [List.getElem?_eq_none hle] at hko
            cases hko
        exact hno ⟨job, hm, hname, (hout.isFinishedAt_iff hm hb).mpr (by simpa using hdead)⟩
      · have hno' : ∀ job ∈ t.jobs, job.ref ≠ ref := fun job hm he => hjob ⟨job, hm, he⟩
        rw [hother hno']
        rcases hor with hnew | ⟨a, hko, halive⟩
        · simp [Agent.isAlive, (h.inTick.fresh ref b hnew hb).1, AgentState.isAlive]
        · obtain ⟨a', ho', -, hpend⟩ := h.inTick.object ref a hko
          rw [hb] at ho'
          cases ho'
          rw [hpend fun job hm he => absurd he (hno' job hm)]
          exact halive
    · rintro ⟨c, ⟨ref, hreg, hc⟩, halive⟩
      obtain ⟨b, hb, -⟩ := h.inTick.wf x ref hreg
      obtain ⟨c', hc', -, hother, hown⟩ := hout.object h.inTick hwf hb
      rw [hc] at hc'
      cases hc'
      refine ⟨h.boxed hwf hreg hb ?_, ?_⟩
      · by_cases hjob : ∃ job ∈ t.jobs, job.ref = ref
        · exact .inr hjob
        · rw [← hother fun job hm he => hjob ⟨job, hm, he⟩]
          exact .inl halive
      · rintro ⟨job, hm, rfl, hfin⟩
        obtain ⟨a, ha, -⟩ := h.inTick.job_object hwf hm
        have hdead := (hout.isFinishedAt_iff hm ha).mp hfin
        -- a mailbox is taken from an agent that has finished, and nobody has inherited its name
        obtain rfl := hheir job hm a ha hdead ref hreg
        rw [hb] at ha
        cases ha
        rw [← hown job hm rfl, halive] at hdead
        cases hdead

end Linked

/-! ## Runs with unregistrations -/

namespace Kernel

/-- A step is refused, or it is a tick that runs to its end in which no name is
registered in the gap of its unregistration or taken over from an agent that
finishes. -/
def Careful (code : AgentCode σ) (k : Kernel σ) : Act σ → Prop
  | .step b loop sched =>
      (k.refused code b loop).isSome = true
      ∨ (b.raises (k.tickWith code b loop sched) = none
        ∧ (k.tickWith code b loop sched).HooksReturn code
        ∧ k.beginTick.NoGap code b.isAsync sched
        ∧ (k.tickWith code b loop sched).NoHeir code)
  | _ => True

theorem mailed_init : ({} : Kernel σ).Mailed := ⟨sound_init.wf, sound_init.mail⟩

theorem Mailed.register {k k' : Kernel σ} {a : FreshAgent σ} {p : Option String}
    (h : k.Mailed) (hreg : k.register a p = .ok k') : k'.Mailed where
  wf := h.wf.register hreg
  mail := by
    intro x
    rw [mem_mailboxes_register hreg, isLive, agent?_register h.wf hreg, h.mail]
    by_cases hx : x = a.name
    · simp [hx, Agent.isAlive, AgentState.isAlive]
    · simp [hx, isLive]

theorem Mailed.busPost {k k' : Kernel σ} {s r : String} {p : Value} {m : Metadata}
    (h : k.Mailed) (hpost : k.busPost s r p m = .ok k') : k'.Mailed := by
  obtain ⟨bus, hsend, rfl⟩ := busPost_eq_ok hpost
  exact ⟨h.wf, fun x => by rw [MessageBus.keys_send hsend]; exact h.mail x⟩

theorem Mailed.unregister {k : Kernel σ} (h : k.Mailed) (y : String) : (k.unregister y).Mailed where
  wf := h.wf.unregister y
  mail := by
    intro x
    have hbox : x ∈ (k.unregister y).bus.mailboxes.keys ↔ x ≠ y ∧ x ∈ k.bus.mailboxes.keys :=
      MessageBus.mem_keys_unregister k.bus y x
    have hagent : (k.unregister y).agent? x = if x = y then none else k.agent? x := by
      by_cases hx : x = y <;>
        simp [Kernel.unregister, popAgent, dropMailbox, agent?, Dict.get?_erase, hx]
    rw [hbox, h.mail, isLive, isLive, hagent]
    by_cases hx : x = y <;> simp [hx]

/-- A careful step keeps the tables in agreement. -/
theorem Mailed.step {code : AgentCode σ} (hcode : code.Whole) {k : Kernel σ} (h : k.Mailed)
    {b : Backend} {loop : Bool} {sched : List Nat} (hallow : k.Allows code b loop sched)
    (hcareful : k.Careful code (.step b loop sched)) :
    (k.stepWith code b loop sched).1.Mailed := by
  cases hrefused : k.refused code b loop with
  | some e =>
    rw [stepWith_of_refused hrefused]
    exact ⟨h.wf, fun x => by rw [beginTick_keys]; exact h.mail x⟩
  | none =>
    obtain ⟨hraises, hhooks, hgap, hheir⟩ := hcareful.resolve_left (by simp [hrefused])
    rw [tickWith_of_accepted hrefused] at hraises hhooks hheir
    have hcomplete := isComplete_of_allows hallow hrefused hraises
    have hlinked := (Linked.begin h).exec hcode b.isAsync sched h.wf hgap
    obtain ⟨k', names, hbar, hout⟩ := hlinked.inTick.barrier_ok h.wf hhooks
      (fun _ _ hs => (hlinked.inTick.accepts_notices_iff h.wf hs).mpr
        (hlinked.parentsReachable h.wf)) k.waitingNames
    rw [stepWith_of_accepted hrefused hraises, hbar]
    exact hlinked.mailed h.wf hcomplete hheir hout

/-- The tables agree after every careful run. -/
theorem mailed_of_careful {code : AgentCode σ} (hcode : code.Whole) {k : Kernel σ}
    {acts : List (Act σ)}
    (h : Runs (fun k act k' => k.Performs code act k' ∧ k.Careful code act) {} acts k) :
    k.Mailed := by
  refine Runs.invariant (I := Mailed) ?_ h mailed_init
  rintro u act u' hu ⟨hperf, hcareful⟩
  cases act with
  | register a p => exact hu.register hperf
  | unregister x =>
    obtain rfl := hperf
    exact hu.unregister x
  | post s r p m => exact hu.busPost hperf
  | step b loop sched =>
    obtain ⟨hallow, rfl⟩ := hperf
    exact hu.step hcode hallow hcareful

end Kernel

/-- **Alive iff addressable**, in every run whose steps are careful: at every
boundary a registered agent has a mailbox exactly when it is alive. So a send to
a live agent is accepted, at the boundary and at every point of the next tick,
and no escalation of that tick raises. -/
theorem alive_iff_addressable {code : AgentCode σ} (hcode : code.Whole) {k : Kernel σ}
    {acts : List (Act σ)}
    (h : Runs (fun k act k' => k.Performs code act k' ∧ k.Careful code act) {} acts k) :
    (∀ x ∈ k.agents.keys, x ∈ k.bus.mailboxes.keys ↔ k.isLive x = true)
    ∧ (∀ m : Message, k.isLive m.recipient = true → ∃ bus, k.bus.send m = .ok bus)
    ∧ ∀ async sched, k.beginTick.NoGap code async sched →
        (∀ m : Message, (k.beginTick.exec code async sched).kernel.isLive m.recipient = true →
          ∃ bus, (k.beginTick.exec code async sched).kernel.bus.send m = .ok bus)
        ∧ ∀ k1 names, (k.beginTick.exec code async sched).kernel.superviseAll code
            (k.beginTick.exec code async sched).casualties = (k1, .ok names) →
          (k1.escalateAll (k.beginTick.exec code async sched).casualties).2 = none := by
  have hmailed := Kernel.mailed_of_careful hcode h
  refine ⟨fun x _ => hmailed.mail x, fun m hlive => ?_, fun async sched hgap => ?_⟩
  · exact MessageBus.send_ok_iff.mpr (.inr ((hmailed.mail _).mpr hlive))
  · have hlinked := (Linked.begin hmailed).exec hcode async sched hmailed.wf hgap
    refine ⟨fun m hlive => hlinked.send_ok hmailed.wf hlive, fun k1 names hsup => ?_⟩
    have hin := hlinked.inTick
    have hhooks : (k.beginTick.exec code async sched).HooksReturn code :=
      Kernel.restartReturns_of_superviseAll (hin.casualties hmailed.wf) hsup
    obtain ⟨k1', names', hsup', hs⟩ := Kernel.superviseAll_ok (hin.casualties hmailed.wf) hhooks
    rw [hsup] at hsup'
    cases hsup'
    obtain ⟨bus, hesc, -⟩ := Kernel.escalateAll_ok
      ((hin.accepts_notices_iff hmailed.wf hs).mpr (hlinked.parentsReachable hmailed.wf))
    rw [hesc]

/-! ## An agent that replaces itself -/

/-- Agents that, in each step, exit if told so, and replace themselves by a new
agent of the same name. -/
def phoenix (exits : Bool) : AgentCode Script where
  step _ a _ _ :=
    let rise : StepProg Script := .unregister a.name
      (.register (Script.agent a.name a.name_ne []) none fun _ => .ret)
    if exits then .exit rise else rise
  onRestart s _ := (s, none)
  isAsync _ := false
  kind _ := "Phoenix"
  saveState _ := ∅
  loadState s _ := .ok s

theorem phoenix_whole (exits : Bool) : (phoenix exits).Whole := by
  intro s a tick inbox
  cases exits
  · exact ⟨trivial, trivial, fun _ _ => trivial⟩
  · exact ⟨trivial, trivial, trivial, fun _ _ => trivial⟩

/-- The agent that replaces itself. -/
def bird : FreshAgent Script := Script.agent "bird" (by decide) []

/-- A kernel with this agent only. -/
def nest : Kernel Script where
  bus := ({} : MessageBus).register bird.name
  agents := Dict.ofList [(bird.name, 0)]
  objects := [bird.toAgent]

/-- `nest` after a tick in which the agent starts, makes its calls and returns. -/
def reborn (exits : Bool) : Kernel Script :=
  (nest.stepWith (phoenix exits) .serial false (List.replicate (if exits then 6 else 5) 0)).1

theorem nest_registered : ({} : Kernel Script).register bird none = .ok nest := by decide

/-- An agent that runs alone registers nothing while it unregisters. -/
theorem noGap_of_length_le_one {code : AgentCode σ} (async : Bool) (sched : List Nat)
    {t : TickState σ} (h : t.jobs.length ≤ 1) : t.NoGap code async sched := by
  induction sched generalizing t with
  | nil => trivial
  | cons i rest ih =>
    refine ⟨fun job hi n hn other hmem hx => ?_, ih ?_⟩
    · obtain ⟨j, hj⟩ := List.mem_iff_getElem?.mp hmem
      have hlt : i < t.jobs.length := (List.getElem?_eq_some_iff.mp hi).1
      have hlt' : j < t.jobs.length := (List.getElem?_eq_some_iff.mp hj).1
      obtain rfl : i = j := by omega
      rw [hi] at hj
      cases hj
      unfold Job.registers? at hn
      unfold Job.unregistering? at hx
      split at hx
      · simp_all
      · cases hx
    · unfold TickState.advance
      split
      · exact h
      · simpa using h

/-- A tick in which nobody fails and nobody finishes leaves no hook to raise and
no name to be taken over. -/
theorem careful_of_all_alive (code : AgentCode σ) {t : TickState σ}
    (hfailed : t.casualties.isEmpty = true)
    (halive : (t.jobs.all fun job => (t.kernel.objects[job.ref]?).all fun a =>
      (job.concluded code a).isAlive) = true) : t.HooksReturn code ∧ t.NoHeir code := by
  constructor
  · intro job hjob
    rw [List.isEmpty_iff.mp hfailed] at hjob
    cases hjob
  · intro job hjob a ha hdead
    have := List.all_eq_true.mp halive job hjob
    rw [ha, Option.all_some, hdead] at this
    cases this

/-- An agent that replaces itself without exiting stays addressable: the tables
agree after the tick in which it does. -/
theorem alive_iff_addressable_reborn :
    (∀ x ∈ (reborn false).agents.keys,
        x ∈ (reborn false).bus.mailboxes.keys ↔ (reborn false).isLive x = true)
      ∧ "bird" ∈ (reborn false).agents.keys := by
  have hcareful : nest.Careful (phoenix false) (.step .serial false (List.replicate 5 0)) := by
    obtain ⟨hhooks, hheir⟩ := careful_of_all_alive (phoenix false)
      (t := nest.tickWith (phoenix false) .serial false (List.replicate 5 0))
      (by decide) (by decide)
    exact .inr ⟨by rfl, hhooks, noGap_of_length_le_one _ _ (by decide), hheir⟩
  have hrun : Runs (fun (k : Kernel Script) act k' => k.Performs (phoenix false) act k'
      ∧ k.Careful (phoenix false) act) {}
      [.register bird none, .step .serial false (List.replicate 5 0)] (reborn false) :=
    .cons ⟨nest_registered, trivial⟩ (.cons ⟨⟨by decide, rfl⟩, hcareful⟩ .nil)
  exact ⟨(alive_iff_addressable (phoenix_whole false) hrun).1, by decide⟩

/-- One that exits before it replaces itself leaves a live agent nobody can
reach: the barrier finds the old agent finished and reclaims the mailbox by
name, which is by then the new agent's. -/
theorem phoenix_unreachable :
    ∃ acts k, Runs (fun (k : Kernel Script) act k' => k.Performs (phoenix true) act k') {} acts k
      ∧ "bird" ∈ k.agents.keys ∧ k.isLive "bird" = true
      ∧ "bird" ∉ k.bus.mailboxes.keys
      ∧ k.bus.post "ext" "bird" .none ∅ = .error (.unknownRecipient "bird" []) :=
  ⟨[.register bird none, .step .serial false (List.replicate 6 0)], reborn true,
    .cons nest_registered (.cons ⟨by decide, rfl⟩ .nil),
    by decide, by decide, by decide, by decide⟩

end TitoOS
