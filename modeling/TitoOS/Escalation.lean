import TitoOS.Kernel.Roster
import TitoOS.Script

/-!
# Escalation

Who is told about a permanent failure. `Kernel.lost` lists the agents that
became permanently FAILED in a tick, by looking at the kernels before and after
it only. The notices the barrier posts are exactly one for each of them, to its
parent if that is alive after the restarts (`TickRun.posted`), whatever the
order in which parents and children were registered.
-/

namespace TitoOS

variable {σ : Type}

namespace Kernel

/-- The agents that were alive in `k` and are FAILED in `k'`, in registration
order. -/
def lost (k k' : Kernel σ) : List (Agent σ) :=
  (k.agents.values.filter fun ref =>
    (k.objects[ref]?).any Agent.isAlive && k'.hasFailed ref).filterMap fun ref => k'.objects[ref]?

/-- Those of them whose parent is `parent`. -/
def lostChildren (k k' : Kernel σ) (parent : String) : List (Agent σ) :=
  (k.lost k').filter fun a => a.parent = some parent

/-- The notice about an agent, if it is meant for `x`. -/
theorem notice_filter {k : Kernel σ} (hstar : BROADCAST ∉ k.agents.keys) (ref : Nat) (x : String) :
    (k.notice ref).filter (fun m => decide (m.addresses x))
      = if k.isLive x = true
        then ((k.objects[ref]?).filter fun a => a.parent = some x).map (Kernel.childFailed x)
        else none := by
  unfold notice
  cases ho : k.objects[ref]? with
  | none => simp
  | some a =>
    cases hp : a.parent with
    | none => simp [hp, Option.filter_some]
    | some parent =>
      cases hreg : k.agent? parent with
      | none =>
        by_cases hx : parent = x
        · subst hx
          simp [hp, hreg, isLive]
        · simp [hp, hreg, hx, Option.filter_some]
      | some p =>
        have hne : parent ≠ BROADCAST := by
          rintro rfl
          obtain ⟨r, hr, -⟩ := agent?_eq_some_iff.mp hreg
          exact hstar (Dict.mem_keys_of_get? hr)
        by_cases hx : parent = x
        · subst hx
          by_cases halive : p.isAlive = true
          · simp [hp, hreg, isLive, halive, Option.filter_some, Message.addresses,
              Message.isBroadcast, hne, childFailed]
          · simp [hp, hreg, isLive, halive]
        · by_cases halive : p.isAlive = true
          · simp [hp, hreg, halive, Option.filter_some, Message.addresses,
              Message.isBroadcast, hne, hx, Ne.symm hx]
          · simp [hp, hreg, halive, hx, Option.filter_some]

/-- The addresses of the live agents, in registration order. -/
theorem liveSnapshot_refs (k : Kernel σ) :
    k.liveSnapshot.map Prod.fst
      = k.agents.values.filter fun ref => (k.objects[ref]?).any Agent.isAlive := by
  unfold liveSnapshot
  generalize k.agents.values = refs
  induction refs with
  | nil => rfl
  | cons ref rest ih =>
    cases ho : k.objects[ref]? with
    | none => simpa [ho] using ih
    | some a => by_cases h : a.isAlive = true <;> simp [ho, h, ih]

end Kernel

namespace TickRun

variable {code : AgentCode σ} {k k' : Kernel σ} {t : TickState σ} {sent : List Delivery}
  {names : List String}

/-- A scheduled agent that is FAILED after the tick is a casualty of it. -/
theorem isFailed_of_hasFailed (h : TickRun code k t sent k' names) (hwf : k.Wf) {job : Job σ}
    (hjob : job ∈ t.jobs) (hf : k'.hasFailed job.ref = true) : job.phase.isFailed = true := by
  obtain ⟨a, ho, -, hstate⟩ := h.point.inTick.job_object hwf hjob
  have hobj := h.outcome.job job hjob a ho
  have hsettled := h.settled hjob
  cases hp : job.phase with
  | pending | running | escaped => rw [hp] at hsettled; cases hsettled
  | failed => rfl
  | returned calls inbox =>
    have hs : a.state = (stateAfter calls).settled := hstate _ (by rw [hp]; rfl)
    rw [Job.concluded, hp] at hobj
    simp only [Phase.isFailed, Bool.false_and, Bool.false_eq_true, if_false] at hobj
    rw [Kernel.hasFailed, hobj, decide_eq_true_eq, hs] at hf
    rcases stateAfter_cases calls with hc | hc | hc <;> simp [hc, AgentState.settled] at hf

/-- **The permanent failures of a tick**, seen from its jobs and seen from the
registry. -/
theorem failedRefs_eq (h : TickRun code k t sent k' names) (hwf : k.Wf) :
    (t.casualties.map Job.ref).filter k'.hasFailed
      = k.agents.values.filter fun ref =>
          (k.objects[ref]?).any Agent.isAlive && k'.hasFailed ref := by
  -- among the jobs, the casualties that are FAILED now are those that are FAILED now
  have hjobs : (t.casualties.map Job.ref).filter k'.hasFailed
      = (t.jobs.map Job.ref).filter k'.hasFailed := by
    rw [TickState.casualties, List.filter_map, List.filter_map, List.filter_filter]
    refine congrArg _ (List.filter_congr fun job hjob => ?_)
    cases hf : k'.hasFailed job.ref with
    | false => simp [hf]
    | true => simp [hf, h.isFailed_of_hasFailed hwf hjob hf]
  -- among the live agents, those FAILED now have been scheduled
  have hlive : (t.jobs.map Job.ref).filter k'.hasFailed
      = (k.liveSnapshot.map Prod.fst).filter k'.hasFailed := by
    rw [TickState.map_ref_of_fixed h.point.inTick.fixed, Kernel.beginTick_jobs hwf, List.map_map,
      List.filter_map, List.filter_map, List.filter_filter]
    refine congrArg _ (List.filter_congr fun e he => ?_)
    cases hf : k'.hasFailed e.1 with
    | false => simp [hf]
    | true =>
      have hskip : ¬ (e.2.state = .waiting ∧ k.inboxOf e.2.name = []) := by
        rintro ⟨hw, hmail⟩
        obtain ⟨hreg, ho, halive⟩ :=
          (Kernel.mem_liveSnapshot_iff hwf).mp (show (e.1, e.2) ∈ k.liveSnapshot from he)
        rcases h.fate hwf (Kernel.agent?_eq_some_iff.mpr ⟨_, hreg, ho⟩) with
          ⟨-, hsame⟩ | ⟨job, hjob, hname, -⟩
        · obtain ⟨ref, hreg', ho'⟩ := Kernel.agent?_eq_some_iff.mp hsame
          rw [h.registered hreg] at hreg'
          cases hreg'
          simp [Kernel.hasFailed, ho', hw] at hf
        · obtain ⟨b, hreg', hob, -, -, hwake, -⟩ := h.point.inTick.origin hwf hjob
          rw [hname, hreg] at hreg'
          rw [← Option.some.inj hreg', ho] at hob
          cases hob
          exact hwake hw (hname ▸ hmail)
      simp only [Function.comp_apply, hf, Bool.true_and, Bool.not_eq_true', Bool.and_eq_false_iff,
        decide_eq_false_iff_not, List.isEmpty_eq_false_iff]
      by_cases hw : e.2.state = .waiting
      · exact .inr fun he => hskip ⟨hw, he⟩
      · exact .inl hw
  rw [hjobs, hlive, Kernel.liveSnapshot_refs, List.filter_filter]
  exact List.filter_congr fun ref _ => Bool.and_comm _ _

/-- The notices of a tick that are meant for `x`. -/
theorem notices_filter (h : TickRun code k t sent k' names) (hwf : k.Wf)
    (hstar : BROADCAST ∉ k'.agents.keys) (x : String) :
    ((k'.notices t.casualties).filter fun m => decide (m.addresses x))
      = if k'.isLive x = true then (k.lostChildren k' x).map (Kernel.childFailed x) else [] := by
  have hnotices : k'.notices t.casualties
      = ((t.casualties.map Job.ref).filter k'.hasFailed).filterMap k'.notice := by
    rw [Kernel.notices]
    induction t.casualties with
    | nil => rfl
    | cons job rest ih =>
      cases hf : k'.hasFailed job.ref <;> simp [hf, ih, List.filterMap_cons]
  rw [hnotices, h.failedRefs_eq hwf, List.filter_filterMap, Kernel.lostChildren, Kernel.lost]
  generalize (k.agents.values.filter fun ref =>
    (k.objects[ref]?).any Agent.isAlive && k'.hasFailed ref) = refs
  have hpoint : (fun ref => (k'.notice ref).filter fun m => decide (m.addresses x))
      = fun ref => if k'.isLive x = true
        then ((k'.objects[ref]?).filter fun a => a.parent = some x).map (Kernel.childFailed x)
        else none := funext fun ref => Kernel.notice_filter hstar ref x
  rw [hpoint]
  by_cases hlive : k'.isLive x = true
  · simp only [if_pos hlive]
    rw [List.filter_filterMap, List.map_filterMap]
  · simp [hlive]

end TickRun

/-- A parent that is restarted in the tick in which its child fails for good,
registered after the child. -/
def familyOps : List (Op Script) :=
  [.register (Script.agent "child" (by decide) [.send "parent" "progress", .fail "gone"])
    (some "parent"),
   .register (Script.agent "parent" (by decide) [.fail "crash"] .onFailure) none,
   .post "user" "parent" (.str "request")]

theorem familyOps_accepted : (Kernel.replay scripted familyOps {}).isSome = true := by decide

/-- The kernel before the tick in which both fail. -/
def family : Kernel Script := ((Kernel.replay scripted familyOps {}).get familyOps_accepted).2

end TitoOS
