import TitoOS.Kernel.Run

/-!
# Kernels between ticks

As long as nobody is unregistered, an agent's address is its place in
registration order (`Enrolled`). `Settles` says what may be done to a kernel
for it to stand between two ticks: registrations, bus posts, steps that return
and steps the backend refuses before it runs anybody.
-/

namespace TitoOS

variable {σ : Type}

namespace Kernel

/-- The registry lists all objects, in their order. -/
def Enrolled (k : Kernel σ) : Prop :=
  k.agents.entries = (k.objects.map Agent.name).zipIdx

namespace Enrolled

variable {k k' : Kernel σ}

theorem keys (h : k.Enrolled) : k.agents.keys = k.objects.map Agent.name := by
  rw [Dict.keys, h, List.zipIdx_map_fst]

theorem nodup (h : k.Enrolled) : (k.objects.map Agent.name).Nodup :=
  h.keys ▸ k.agents.keys_nodup

/-- The registered agents are the objects. -/
theorem roster_eq (h : k.Enrolled) : k.roster = k.objects := by
  have hvalues : k.agents.values = List.range' 0 k.objects.length := by
    rw [Dict.values, h, List.zipIdx_map_snd, List.length_map]
  rw [roster, hvalues]
  have hget : ∀ l : List (Agent σ), ∀ pre,
      ((List.range' pre.length l.length).filterMap fun ref => (pre ++ l)[ref]?) = l := by
    intro l
    induction l with
    | nil => simp
    | cons a rest ih =>
      intro pre
      have hrest := ih (pre ++ [a])
      simp only [List.length_append, List.length_singleton, List.append_assoc,
        List.singleton_append] at hrest
      simp [List.range'_succ, hrest]
  simpa using hget k.objects []

/-- Each object is registered under its name. -/
theorem agent?_of_mem (h : k.Enrolled) {a : Agent σ} (ha : a ∈ k.objects) :
    k.agent? a.name = some a := by
  obtain ⟨i, hi⟩ := List.mem_iff_getElem?.mp ha
  refine agent?_eq_some_iff.mpr ⟨i, Dict.get?_eq_some_iff.mpr ?_, hi⟩
  rw [h, List.mem_zipIdx_iff_getElem?, List.getElem?_map, hi]
  rfl

theorem isLive_iff (h : k.Enrolled) (x : String) :
    k.isLive x = true ↔ ∃ a ∈ k.objects, a.isAlive = true ∧ a.name = x := by
  rw [Kernel.isLive_iff]
  constructor
  · rintro ⟨a, ha, halive⟩
    obtain ⟨ref, hreg, hobj⟩ := agent?_eq_some_iff.mp ha
    have hmem : a ∈ k.objects := List.mem_of_getElem? hobj
    refine ⟨a, hmem, halive, ?_⟩
    have hentry := Dict.get?_eq_some_iff.mp hreg
    rw [h, List.mem_zipIdx_iff_getElem?, List.getElem?_map, hobj] at hentry
    exact Option.some.inj hentry
  · rintro ⟨a, hmem, halive, rfl⟩
    exact ⟨a, h.agent?_of_mem hmem, halive⟩

theorem of_names (h : k.Enrolled) (hagents : k'.agents = k.agents)
    (hnames : k'.objects.map Agent.name = k.objects.map Agent.name) : k'.Enrolled := by
  rw [Enrolled, hagents, hnames]
  exact h

theorem enrol (h : k.Enrolled) {a : Agent σ} (hnew : a.name ∉ k.agents.keys) (bus : MessageBus) :
    Enrolled { k with
      objects := k.objects ++ [a]
      agents := k.agents.set a.name k.objects.length
      bus } := by
  rw [Enrolled, Dict.entries_set_of_not_mem hnew, h]
  simp [List.zipIdx_append]

end Enrolled

/-- What an action of a Context-only step does keeps the registry in order. -/
theorem Enrolled.effect {k k' : Kernel σ} (h : k.Enrolled) {ref : Nat} {name : String}
    {out : List Delivery} {fails : List (String × Exc)}
    (heff : Effect k ref name false out fails k') : k'.Enrolled := by
  have hmodify : ∀ f : Agent σ → Agent σ, (∀ a, (f a).name = a.name) →
      (k.objects.modify ref f).map Agent.name = k.objects.map Agent.name := by
    intro f hf
    refine List.ext_getElem? fun i => ?_
    rw [List.getElem?_map, List.getElem?_map, List.getElem?_modify]
    by_cases hi : ref = i <;> cases k.objects[i]? <;> simp [hi, hf]
  cases heff with
  | quiet => exact h
  | own f hsame =>
    refine h.of_names rfl (hmodify f fun a => ?_)
    rw [hsame a]
  | fail e => exact h.of_names rfl (hmodify _ fun _ => rfl)
  | send m bus _ _ => exact h.of_names rfl rfl
  | register a p hnew =>
    have hname : (a.linked p).name = a.name := FreshAgent.linked_name a p
    rw [← hname] at hnew ⊢
    exact h.enrol hnew _

/-! ## Reaching a boundary -/

/-- The act leaves the kernel between two ticks. -/
def Settles (code : AgentCode σ) (k : Kernel σ) : Act σ → Prop
  | .unregister _ => False
  | .step b loop sched =>
      (k.stepWith code b loop sched).2.isOk = true ∨ (k.refused code b loop).isSome = true
  | _ => True

/-- The acts lead from a fresh kernel to `k`, each leaving it between two ticks. -/
abbrev Reached (code : AgentCode σ) (acts : List (Act σ)) (k : Kernel σ) : Prop :=
  Runs (fun (k : Kernel σ) act k' => k.Performs code act k' ∧ k.Settles code act) {} acts k

/-- The registry stays in order all along a tick. -/
theorem Enrolled.exec {code : AgentCode σ} {k : Kernel σ} (h : k.Enrolled) (hwf : k.Wf)
    (hcode : code.ContextOnly) (async : Bool) (sched : List Nat) :
    (k.beginTick.exec code async sched).kernel.Enrolled := by
  have hboth : ContextTick k (k.beginTick.exec code async sched) (k.beginTick.log code async sched)
      ∧ (k.beginTick.exec code async sched).kernel.Enrolled := by
    refine TickState.exec_log_induction (I := fun t log => ContextTick k t log ∧ t.kernel.Enrolled)
      (fun i t log hI => ?_) sched ⟨.begin hwf, h⟩
    refine ⟨hI.1.advance hwf hcode async i, ?_⟩
    cases hi : t.jobs[i]? with
    | none =>
      rw [TickState.advance_of_none hi]
      exact hI.2
    | some job =>
      rw [TickState.advance_of_some code async hi]
      exact hI.2.effect (moveJob_effect code t.kernel async job
        fun _ => hI.1.steps job (List.mem_of_getElem? hi))
  exact hboth.2

/-- What a completed tick keeps. -/
theorem Enrolled.tick {code : AgentCode σ} {k k' : Kernel σ} (h : k.Enrolled) (hsound : k.Sound)
    (hcode : code.ContextOnly) {b : Backend} {loop : Bool} {sched : List Nat} {report : TickReport}
    (hallow : k.Allows code b loop sched)
    (hstep : k.stepWith code b loop sched = (k', .ok report)) :
    k'.Sound ∧ k'.Enrolled ∧ k'.stopReason = k.stopReason := by
  obtain ⟨sent, names, htick, -⟩ :=
    tickRun_of_stepWith hcode hsound.wf hsound.addressable hallow hstep
  refine ⟨htick.sound hsound, ?_, htick.outcome.stopReason⟩
  have haccepted : k.refused code b loop = none := (barrier_of_stepWith hstep).1
  have henrolled := h.exec hsound.wf hcode b.isAsync sched
  rw [← tickWith_of_accepted haccepted] at henrolled
  refine henrolled.of_names htick.outcome.agents (List.ext_getElem? fun i => ?_)
  rw [List.getElem?_map, List.getElem?_map]
  by_cases hjob : ∃ job ∈ (k.tickWith code b loop sched).jobs, job.ref = i
  · obtain ⟨job, hmem, rfl⟩ := hjob
    obtain ⟨a, ha, -⟩ := htick.point.inTick.job_object hsound.wf hmem
    rw [htick.outcome.job job hmem a ha, ha]
    simp
  · rw [htick.outcome.others i fun job hmem href => hjob ⟨job, hmem, href⟩]

/-- What is known of a kernel between two ticks. -/
structure Rested (k : Kernel σ) : Prop where
  sound : k.Sound
  enrolled : k.Enrolled
  stopReason : k.stopReason = none

namespace Rested

variable {code : AgentCode σ} {k k' : Kernel σ}

theorem init : ({} : Kernel σ).Rested := ⟨sound_init, rfl, rfl⟩

theorem register (h : k.Rested) {a : FreshAgent σ} {p : Option String}
    (hreg : k.register a p = .ok k') : k'.Rested := by
  obtain ⟨hnew, heq⟩ := register_eq_ok_iff.mp hreg
  refine ⟨h.sound.register hreg, ?_, heq ▸ h.stopReason⟩
  rw [heq, ← FreshAgent.linked_name a p]
  rw [← FreshAgent.linked_name a p] at hnew
  exact h.enrolled.enrol hnew _

theorem busPost (h : k.Rested) {s r : String} {p : Value} {m : Metadata}
    (hpost : k.busPost s r p m = .ok k') : k'.Rested := by
  obtain ⟨bus, -, heq⟩ := busPost_eq_ok hpost
  exact ⟨h.sound.busPost hpost, heq ▸ h.enrolled, heq ▸ h.stopReason⟩

/-- A refused step has only counted the tick and drained the mailboxes. -/
theorem beginTick (h : k.Rested) : k.beginTick.kernel.Rested where
  sound := ⟨h.sound.wf, fun x => by rw [beginTick_keys]; exact h.sound.mail x, h.sound.idle⟩
  enrolled := h.enrolled
  stopReason := h.stopReason

/-- A completed tick keeps the registry in order. -/
theorem tick (h : k.Rested) (hcode : code.ContextOnly) {b : Backend} {loop : Bool}
    {sched : List Nat} {report : TickReport} (hallow : k.Allows code b loop sched)
    (hstep : k.stepWith code b loop sched = (k', .ok report)) : k'.Rested := by
  obtain ⟨hsound, henrolled, hstop⟩ := h.enrolled.tick h.sound hcode hallow hstep
  exact ⟨hsound, henrolled, hstop.trans h.stopReason⟩

end Rested

/-- **Every kernel reached between two ticks is sound**, with its registry in
order. -/
theorem Reached.rested {code : AgentCode σ} (hcode : code.ContextOnly) {acts : List (Act σ)}
    {k : Kernel σ} (h : Reached code acts k) : k.Rested := by
  refine Runs.invariant (I := Rested) ?_ h .init
  rintro u act u' hu ⟨hperf, hsettles⟩
  cases act with
  | register a p => exact hu.register hperf
  | unregister x => exact absurd hsettles id
  | post s r p m => exact hu.busPost hperf
  | step b loop sched =>
    obtain ⟨hallow, rfl⟩ := hperf
    cases hrefused : u.refused code b loop with
    | some e =>
      rw [stepWith_of_refused hrefused]
      exact hu.beginTick
    | none =>
      have hok := hsettles.resolve_right (by simp [hrefused])
      generalize hres : u.stepWith code b loop sched = res at hok
      obtain ⟨u', _ | report⟩ := res
      · cases hok
      · exact hu.tick hcode hallow hres

end Kernel

end TitoOS
