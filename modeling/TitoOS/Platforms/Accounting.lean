import TitoOS.Platforms.Retry
import TitoOS.Resaving

/-!
# Turn accounting

`turns`, `_seeded` and the lifecycle state of a platform agent are set only at
the end of a turn and travel through `save_state` and `load_state`. They tell the
same story as the agent's history (`TurnAccount`): how many of its steps have
completed a turn, whether the seed has been spent, and whether the last turn has
been reached. The history is that of one agent, which a restore moves to another
object of another kernel (`Seat`).
-/

namespace TitoOS

variable {τ ρ θ κ : Type}

/-! ## The history of an agent -/

/-- A step that a platform agent has taken: the mail it was handed, the turn that
`_begin` made of it, and whether the step returned. The hooks of the adapter are
called with the turn, if there is one, and not at all otherwise. -/
structure TurnStep where
  inbox : List Message
  turn : Option PlatformTurn
  returned : Bool
  deriving DecidableEq

namespace TurnStep

/-- The step completed a turn. -/
def completed (r : TurnStep) : Bool := r.turn.isSome && r.returned

/-- The step completed a turn that carried the seed. -/
def spent (seed : Value) (r : TurnStep) : Bool :=
  r.completed && r.turn.any fun turn => decide (turn.seed = seed)

end TurnStep

/-- How many turns a history completed. -/
def completedTurns (history : List TurnStep) : Nat := history.countP TurnStep.completed

/-- The attributes of the platform agent at `ref`. -/
def Kernel.platformAgent? (k : Kernel (Hosted τ κ)) (ref : Nat) : Option (PlatformAgent τ) :=
  match (k.objects[ref]?).map Agent.body with
  | some (.user (.inl s)) => some s
  | _ => none

/-- The step of a job that has started in a tick from `k`, if its agent is a
platform agent. -/
def Job.turnStep? (k : Kernel (Hosted τ κ)) (job : Job (Hosted τ κ)) : Option TurnStep :=
  if job.phase.isPending then none
  else (k.platformAgent? job.ref).map fun s =>
    { inbox := job.inbox
      turn := s.beginTurn job.name (k.tick + 1) job.inbox
      returned := job.phase.isReturned }

/-- The steps that the agent at `ref` takes in an act on `k`. -/
def Kernel.turnSteps (code : AgentCode (Hosted τ κ)) (k : Kernel (Hosted τ κ)) (ref : Nat) :
    Act (Hosted τ κ) → List TurnStep
  | .step b loop sched =>
    ((k.tickWith code b loop sched).jobs.filter fun job => job.ref = ref).filterMap
      (Job.turnStep? k)
  | .register .. | .unregister _ | .post .. => []

/-! ## Where the agent is -/

/-- A kernel and the address of the agent that is followed. -/
structure Seat (τ κ : Type) where
  kernel : Kernel (Hosted τ κ)
  ref : Nat

namespace Seat

/-- The act leaves the agent between two of its steps. One that returns does; a
`BaseException` can leave a tick while the agent is still at work. -/
def Rests (code : AgentCode (Hosted τ κ)) (u : Seat τ κ) : Act (Hosted τ κ) → Prop
  | .step b loop sched => ∀ job ∈ (u.kernel.tickWith code b loop sched).jobs,
      job.ref = u.ref → job.phase.isRunning = false
  | _ => True

instance (code : AgentCode (Hosted τ κ)) (u : Seat τ κ) : DecidablePred (u.Rests code)
  | .step b loop sched => inferInstanceAs (Decidable
      (∀ job ∈ (u.kernel.tickWith code b loop sched).jobs,
        job.ref = u.ref → job.phase.isRunning = false))
  | .register .. | .unregister _ | .post .. => isTrue trivial

/-- The factory of the agent's kind builds platform agents with the same seed and
`max_turns`. -/
def BuildsAlike (code : AgentCode (Hosted τ κ))
    (factories : Dict String (AgentFactory (Hosted τ κ)))
    (a : Agent (Hosted τ κ)) (s : PlatformAgent τ) : Prop :=
  ∃ factory, factories.get? (code.kindOf a) = some factory ∧
    ∀ bare, factory a.name = .ok bare → ∃ p, bare.body = .user (.inl p)
      ∧ p.seed = s.seed ∧ p.maxTurns = s.maxTurns

/-- What happens to an agent between two of its boundaries, with the steps that it
takes: an act on its kernel, or a snapshot, restored into a new kernel. -/
inductive Next (code : AgentCode (Hosted τ κ)) :
    Seat τ κ → List TurnStep → Seat τ κ → Prop
  | act {u : Seat τ κ} {k' : Kernel (Hosted τ κ)} {act : Act (Hosted τ κ)} :
      u.kernel.Performs code act k' → u.Rests code act →
      Next code u (u.kernel.turnSteps code u.ref act) ⟨k', u.ref⟩
  | restored {u v : Seat τ κ} {factories : Dict String (AgentFactory (Hosted τ κ))} {s : Snapshot}
      {a : Agent (Hosted τ κ)} {p : PlatformAgent τ} :
      u.kernel.snapshot code = .ok s → Kernel.restore code factories s = .ok v.kernel →
      u.kernel.objects[u.ref]? = some a → a.body = .user (.inl p) →
      BuildsAlike code factories a p →
      u.kernel.agents.get? a.name = some u.ref → v.kernel.agents.get? a.name = some v.ref →
      Next code u [] v

/-- The agent is as its constructor made it. -/
structure Fresh (u : Seat τ κ) (s : PlatformAgent τ) : Prop where
  wf : u.kernel.Wf
  agent : u.kernel.platformAgent? u.ref = some s
  turns : s.turns = 0
  seeded : s.seeded = PlatformAgent.isNone s.seed

end Seat

/-! ## The books -/

/-- The books of the agent `a`, which has the attributes `s` now and had `s₀` when
it was new, after a history. -/
structure TurnAccount (s₀ : PlatformAgent τ) (history : List TurnStep) (a : Agent (Hosted τ κ))
    (s : PlatformAgent τ) : Prop where
  body : a.body = .user (.inl s)
  seed : s.seed = s₀.seed
  maxTurns : s.maxTurns = s₀.maxTurns
  turns : s.turns = completedTurns history
  seeded : s.seeded = (PlatformAgent.isNone s₀.seed || decide (0 < completedTurns history))
  limit : ∀ n, s₀.maxTurns = some n → completedTurns history ≤ n
  /-- The agent is DONE once the last turn is complete. -/
  last : s₀.maxTurns = some (completedTurns history : Int) → a.state = .done

/-- A step after `n` completed turns is in order: a turn carries the seed just when
no turn has been completed, there is no turn without mail unless the seed is
still to be sent, and no step at all after the last turn. -/
structure TurnStep.InOrder (s₀ : PlatformAgent τ) (n : Nat) (r : TurnStep) : Prop where
  carries : ∀ turn, r.turn = some turn →
    turn.messages = r.inbox ∧ turn.seed = if n = 0 then s₀.seed else .none
  retried : n = 0 → s₀.seed ≠ .none → r.turn.isSome = true
  idle : r.inbox = [] → 0 < n ∨ s₀.seed = .none → r.turn = none
  limit : ∀ m, s₀.maxTurns = some m → (n : Int) < m

theorem completedTurns_append_singleton (history : List TurnStep) (r : TurnStep) :
    completedTurns (history ++ [r])
      = completedTurns history + if r.completed then 1 else 0 := by
  rw [completedTurns, List.countP_append, List.countP_singleton]
  rfl

theorem PlatformAgent.isNone_iff {v : Value} : PlatformAgent.isNone v = true ↔ v = .none := by
  cases v <;> simp [PlatformAgent.isNone]

namespace TurnAccount

variable {adapters : PlatformAdapter τ ρ θ} {s₀ s s' : PlatformAgent τ} {history : List TurnStep}
  {a a' : Agent (Hosted τ κ)}

/-- The books of a new agent. -/
theorem fresh (hbody : a.body = .user (.inl s)) (hturns : s.turns = 0)
    (hseeded : s.seeded = PlatformAgent.isNone s.seed) : TurnAccount s [] a s where
  body := hbody
  seed := rfl
  maxTurns := rfl
  turns := hturns
  seeded := by simpa [completedTurns] using hseeded
  limit := by
    intro n hn
    have := s.maxTurns_pos n hn
    simp only [completedTurns, List.countP_nil]
    omega
  last := by
    intro hn
    have := s.maxTurns_pos _ hn
    simp [completedTurns] at this

/-- A live agent has turns left. -/
theorem lt_of_isAlive (h : TurnAccount s₀ history a s) (halive : a.isAlive = true) {n : Int}
    (hn : s₀.maxTurns = some n) : (completedTurns history : Int) < n := by
  rcases Int.lt_or_eq_of_le (h.limit n hn) with hlt | heq
  · exact hlt
  · have hdone := h.last (heq ▸ hn)
    rw [Agent.isAlive, hdone] at halive
    cases halive

/-- The step that a live agent takes is in order. -/
theorem inOrder (h : TurnAccount s₀ history a s) (halive : a.isAlive = true) (name : String)
    (tick : Int) (inbox : List Message) (returned : Bool) :
    TurnStep.InOrder s₀ (completedTurns history)
      { inbox, turn := s.beginTurn name tick inbox, returned } where
  carries := by
    intro turn hturn
    simp only [PlatformAgent.beginTurn] at hturn
    split at hturn
    · cases hturn
    · cases hturn
      refine ⟨rfl, ?_⟩
      simp only [h.seeded, h.seed]
      rcases Nat.eq_zero_or_pos (completedTurns history) with hzero | hpos
      · cases hnone : PlatformAgent.isNone s₀.seed with
        | true => simp [hzero, PlatformAgent.isNone_iff.mp hnone]
        | false => simp [hzero]
      · simp [hpos, Nat.ne_of_gt hpos]
  retried := by
    intro hzero hseed
    have hnone : PlatformAgent.isNone s₀.seed = false := by
      rw [← Bool.not_eq_true, PlatformAgent.isNone_iff]
      exact hseed
    simp [PlatformAgent.beginTurn, h.seeded, hnone, hzero]
  idle := by
    intro hinbox hspent
    obtain rfl : inbox = [] := hinbox
    have hseeded : s.seeded = true := by
      rw [h.seeded, Bool.or_eq_true, PlatformAgent.isNone_iff, decide_eq_true_eq]
      exact hspent.symm
    simp [PlatformAgent.beginTurn, hseeded]
  limit := fun _ hm => h.lt_of_isAlive halive hm

/-- A step that completes no turn leaves the books alone. -/
theorem unchanged (h : TurnAccount s₀ history a s) (halive : a.isAlive = true) {r : TurnStep}
    (hr : r.completed = false) (hbody : a'.body = .user (.inl s')) (hseed : s'.seed = s.seed)
    (hmax : s'.maxTurns = s.maxTurns) (hturns : s'.turns = s.turns)
    (hseeded : s'.seeded = s.seeded) : TurnAccount s₀ (history ++ [r]) a' s' := by
  have hcount : completedTurns (history ++ [r]) = completedTurns history := by
    rw [completedTurns_append_singleton, hr]
    rfl
  refine ⟨hbody, hseed.trans h.seed, hmax.trans h.maxTurns, ?_, ?_, ?_, ?_⟩ <;> rw [hcount]
  · exact hturns.trans h.turns
  · exact hseeded.trans h.seeded
  · exact h.limit
  · intro hn
    exact absurd (h.lt_of_isAlive halive hn) (Int.lt_irrefl _)

/-- **The books after a step.** -/
theorem step (h : TurnAccount s₀ history a s) (halive : a.isAlive = true) {name : String}
    {tick : Int} {inbox : List Message} {phase : Phase (Hosted τ κ)} {posted : List Message}
    (hend : s.TurnEnd adapters name tick inbox phase posted s')
    (hbody : a'.body = .user (.inl s'))
    (hstate : ∀ calls list, phase = .returned calls list → a'.state = (stateAfter calls).settled) :
    TurnAccount s₀
      (history ++ [{ inbox, turn := s.beginTurn name tick inbox, returned := phase.isReturned }])
      a' s' := by
  cases hend with
  | idle hturn =>
    exact h.unchanged halive (by simp [TurnStep.completed, hturn]) hbody rfl rfl rfl rfl
  | hookRaised hturn herror hphase =>
    exact h.unchanged halive (by simp [TurnStep.completed, hphase]) hbody rfl rfl rfl rfl
  | undelivered hturn hreplies hreply hraised hphase =>
    exact h.unchanged halive (by simp [TurnStep.completed, hphase]) hbody rfl rfl rfl rfl
  | completed hturn hreplies =>
    have hcount := completedTurns_append_singleton history
      { inbox, turn := s.beginTurn name tick inbox, returned := true }
    rw [TurnStep.completed, hturn] at hcount
    simp only [Option.isSome_some, Bool.and_self, if_true] at hcount
    rw [hturn]
    refine ⟨hbody, h.seed, h.maxTurns, ?_, ?_, ?_, ?_⟩ <;>
      simp only [Phase.isReturned, hcount]
    · show s.turns + 1 = _
      rw [h.turns]
      omega
    · show true = _
      simp
    · intro n hn
      have := h.lt_of_isAlive halive hn
      omega
    · -- the last turn ends with `exit`
      intro hn
      have hlast : s.isLastTurn = true := by
        simp only [PlatformAgent.isLastTurn, h.maxTurns, hn, Option.any_some, h.turns,
          decide_eq_true_eq]
        omega
      rw [hstate _ _ rfl, PlatformAgent.lastCall, hlast, if_pos rfl, stateAfter_append]
      rfl

end TurnAccount

/-! ## One act -/

section

variable {others : AgentCode (Hosted τ κ)} {adapters : PlatformAdapter τ ρ θ}
  {k : Kernel (Hosted τ κ)} {ref : Nat} {a : Agent (Hosted τ κ)} {s : PlatformAgent τ}

theorem Kernel.platformAgent?_of_body (ha : k.objects[ref]? = some a)
    (hbody : a.body = .user (.inl s)) : k.platformAgent? ref = some s := by
  rw [Kernel.platformAgent?, ha, Option.map_some, hbody]

/-- A restart leaves the attributes of a platform agent alone. -/
theorem restartOf_hosting {s : PlatformAgent τ} (b : Agent (Hosted τ κ))
    (hb : b.body = .user (.inl s)) :
    ((others.hosting adapters).restartOf b).1 = .user (.inl s) := by
  simp [AgentCode.restartOf, hb, AgentCode.hosting]

/-- What an accepted tick leaves of an agent once the barrier, if it comes to it, is
over: it is as it was, if its step has not failed, and it has its attributes. -/
theorem Kernel.object_of_accepted (adapters : PlatformAdapter τ ρ θ) {b : Backend} {loop : Bool}
    (hrefused : k.refused (others.hosting adapters) b loop = none) (sched : List Nat) (ref : Nat) :
    (∀ c,
      (k.beginTick.exec (others.hosting adapters) b.isAsync sched).kernel.objects[ref]? = some c →
      (∀ job ∈ (k.beginTick.exec (others.hosting adapters) b.isAsync sched).casualties,
        job.ref ≠ ref) →
      (k.stepWith (others.hosting adapters) b loop sched).1.objects[ref]? = some c)
    ∧ ∀ (c : Agent (Hosted τ κ)) (s : PlatformAgent τ),
      (k.beginTick.exec (others.hosting adapters) b.isAsync sched).kernel.objects[ref]? = some c →
      c.body = .user (.inl s) →
      ∃ a', (k.stepWith (others.hosting adapters) b loop sched).1.objects[ref]? = some a'
        ∧ a'.body = .user (.inl s) := by
  cases hraises : b.raises (k.beginTick.exec (others.hosting adapters) b.isAsync sched) with
  | some e =>
    rw [Kernel.stepWith_of_raises hrefused hraises]
    exact ⟨fun c hc _ => hc, fun c s hc hs => ⟨c, hc, hs⟩⟩
  | none =>
    rw [Kernel.stepWith_of_accepted hrefused hraises]
    constructor
    · intro c hc hno
      rcases (Kernel.kept_barrier (others.hosting adapters) k.waitingNames
        (k.beginTick.exec (others.hosting adapters) b.isAsync sched)).object ref with
          hsame | ⟨⟨job, hmem, href⟩, -⟩
      · exact hsame.trans hc
      · exact absurd href (hno job hmem)
    · intro c s hc hs
      exact Kernel.barrier_body (I := fun body => body = .user (.inl s))
        (fun b hb => restartOf_hosting b hb) k.waitingNames hc hs

/-- **What a tick does to a platform agent**: nothing, and it takes no step; or it
takes one, which ends in one of the ways of `TurnEnd`. -/
theorem Kernel.turnSteps_cases (hwf : k.Wf) (ha : k.objects[ref]? = some a)
    (hbody : a.body = .user (.inl s)) {b : Backend} {loop : Bool} {sched : List Nat}
    (hrests : ∀ job ∈ (k.tickWith (others.hosting adapters) b loop sched).jobs,
      job.ref = ref → job.phase.isRunning = false) :
    (k.turnSteps (others.hosting adapters) ref (.step b loop sched) = []
      ∧ (k.stepWith (others.hosting adapters) b loop sched).1.objects[ref]? = some a)
    ∨ ∃ (name : String) (inbox : List Message) (phase : Phase (Hosted τ κ)) (posted : List Message)
        (a' : Agent (Hosted τ κ)) (s' : PlatformAgent τ), a.isAlive = true
      ∧ k.turnSteps (others.hosting adapters) ref (.step b loop sched)
        = [{ inbox, turn := s.beginTurn name (k.tick + 1) inbox, returned := phase.isReturned }]
      ∧ (k.stepWith (others.hosting adapters) b loop sched).1.objects[ref]? = some a'
      ∧ a'.body = .user (.inl s')
      ∧ s.TurnEnd adapters name (k.tick + 1) inbox phase posted s'
      ∧ ∀ calls list, phase = .returned calls list → a'.state = (stateAfter calls).settled := by
  rw [Kernel.turnSteps]
  cases hrefused : k.refused (others.hosting adapters) b loop with
  | some e =>
    -- a refused tick has started no job
    left
    rw [Kernel.stepWith_of_refused hrefused, Kernel.tickWith, hrefused]
    refine ⟨?_, ha⟩
    rw [List.filterMap_eq_nil_iff]
    intro job hjob
    obtain ⟨hpending, -⟩ := Kernel.object_of_mem_beginTick (List.mem_filter.mp hjob).1
    rw [Job.turnStep?, hpending]
    rfl
  | none =>
    rw [Kernel.tickWith_of_accepted hrefused] at hrests ⊢
    have hin := (InTick.begin hwf).exec hwf (others.hosting adapters) b.isAsync sched
    obtain ⟨hkept, hkeeps⟩ := Kernel.object_of_accepted adapters hrefused sched ref
    by_cases hjob : ∃ job ∈ (k.beginTick.exec (others.hosting adapters) b.isAsync sched).jobs,
        job.ref = ref
    · obtain ⟨job, hmem, rfl⟩ := hjob
      have hsteps : (List.filter (fun j => decide (j.ref = job.ref))
          (k.beginTick.exec (others.hosting adapters) b.isAsync sched).jobs).filterMap
            (Job.turnStep? k) = (Job.turnStep? k job).toList := by
        rw [filter_eq_of_nodup_map (hin.refs_nodup hwf) hmem]
        cases hstep : Job.turnStep? k job <;> simp [hstep]
      rw [hsteps, Job.turnStep?, Kernel.platformAgent?_of_body ha hbody]
      cases hpending : job.phase.isPending with
      | true =>
        -- the tick has raised before the agent's turn
        left
        refine ⟨rfl, hkept a ?_ ?_⟩
        · obtain ⟨a1, ha1, -, hsame⟩ := hin.object job.ref a ha
          rwa [hsame fun job' hmem' href =>
            List.inj_on_of_nodup_map (hin.refs_nodup hwf) hmem' hmem href ▸ hpending] at ha1
        · intro job' hcasualty href
          have hfailed := hin.isFailed_of_casualty hwf hmem hcasualty href
          rw [(Phase.not_isPending_of_isFailed hfailed).1] at hpending
          cases hpending
      | false =>
        right
        obtain ⟨i, hi⟩ := List.mem_iff_getElem?.mp hmem
        obtain ⟨c, s', hc, hs', -, hend⟩ :=
          turnEnd_of_tick hwf hrefused hi ha hbody hpending (hrests job hmem rfl)
        obtain ⟨a', ha', hbody'⟩ := hkeeps c s' hc hs'
        obtain ⟨a0, -, ha0, -, halive, -⟩ := hin.origin hwf hmem
        rw [ha] at ha0
        cases ha0
        refine ⟨_, _, _, _, a', s', halive, rfl, ha', hbody', hend, fun calls list hphase => ?_⟩
        have hsame := hkept c hc fun job' hcasualty href => by
          have hfailed := hin.isFailed_of_casualty hwf hmem hcasualty href
          rw [hphase] at hfailed
          cases hfailed
        rw [ha'] at hsame
        cases hsame
        obtain ⟨c', hc', -, hstate⟩ := hin.job_object hwf hmem
        rw [hc] at hc'
        cases hc'
        exact hstate _ (by rw [hphase]; rfl)
    · left
      have hno : ∀ job ∈ (k.beginTick.exec (others.hosting adapters) b.isAsync sched).jobs,
          job.ref ≠ ref := fun job hmem href => hjob ⟨job, hmem, href⟩
      constructor
      · rw [List.filter_eq_nil_iff.mpr fun job hmem => by simpa using hno job hmem]
        rfl
      · obtain ⟨a1, ha1, -, hsame⟩ := hin.object ref a ha
        rw [hsame fun job hmem href => absurd href (hno job hmem)] at ha1
        exact hkept a ha1 fun job hcasualty =>
          hno job (TickState.casualties_sublist _ |>.subset hcasualty)

/-- `load_state` takes over what `save_state` saved. -/
theorem PlatformAgent.loadState_saveState {p q : PlatformAgent τ}
    (h : p.loadState adapters (s.saveState adapters) = .ok q) :
    q.turns = s.turns ∧ q.seeded = s.seeded ∧ q.seed = p.seed ∧ q.maxTurns = p.maxTurns := by
  have hturns : (s.saveState adapters).get? "turns" = some (.int s.turns) := rfl
  have hseeded : (s.saveState adapters).get? "seeded" = some (.bool s.seeded) := rfl
  rw [loadState, hturns, hseeded] at h
  simp only [Option.getD_some, toInt, toBool, bind, Except.bind] at h
  split at h
  · cases h
  · split at h
    · cases h
    · cases h
      exact ⟨rfl, rfl, rfl, rfl⟩

/-- A saved platform agent comes back with its books. -/
theorem TurnAccount.restored {s₀ : PlatformAgent τ} {history : List TurnStep}
    (h : TurnAccount s₀ history a s) {factories : Dict String (AgentFactory (Hosted τ κ))}
    {snapshot : Snapshot} {l : Kernel (Hosted τ κ)}
    (hsnapshot : k.snapshot (others.hosting adapters) = .ok snapshot)
    (hrestore : Kernel.restore (others.hosting adapters) factories snapshot = .ok l)
    (ha : k.agent? a.name = some a)
    (hbuilds : Seat.BuildsAlike (others.hosting adapters) factories a s) {ref' : Nat}
    (href : l.agents.get? a.name = some ref') :
    ∃ a' s', l.objects[ref']? = some a' ∧ TurnAccount s₀ history a' s' := by
  obtain ⟨bare, body, ref, hbuild, hload, hreg, hobj⟩ :=
    Kernel.restored_agent hsnapshot hrestore ha
  rw [href] at hreg
  cases hreg
  obtain ⟨factory, hfactory, hbuilt⟩ := hbuilds
  have hkind : (Kernel.record (others.hosting adapters) a).kind
      = (others.hosting adapters).kindOf a := rfl
  rw [Kernel.buildAgent, hkind, hfactory] at hbuild
  obtain ⟨p, hp, hseed, hmax⟩ := hbuilt bare hbuild
  have hsave : (others.hosting adapters).saveOf a = s.saveState adapters := by
    simp [AgentCode.saveOf, h.body, AgentCode.hosting]
  rw [AgentCode.loadOf, hsave] at hload
  simp only [hp, AgentCode.hosting] at hload
  cases hq : p.loadState adapters (s.saveState adapters) with
  | error e =>
    rw [hq] at hload
    cases hload
  | ok q =>
    rw [hq] at hload
    cases hload
    obtain ⟨hturns, hseeded, hseed', hmax'⟩ := PlatformAgent.loadState_saveState hq
    exact ⟨_, q, hobj, rfl, (hseed'.trans hseed).trans h.seed, (hmax'.trans hmax).trans h.maxTurns,
      hturns.trans h.turns, hseeded.trans h.seeded, h.limit, h.last⟩

end

/-! ## Runs -/

/-- Every step of the history is in order. -/
def HistoryInOrder (s₀ : PlatformAgent τ) (history : List TurnStep) : Prop :=
  ∀ before r after, history = before ++ r :: after → r.InOrder s₀ (completedTurns before)

theorem HistoryInOrder.append_singleton {s₀ : PlatformAgent τ} {history : List TurnStep}
    (h : HistoryInOrder s₀ history) {r : TurnStep} (hr : r.InOrder s₀ (completedTurns history)) :
    HistoryInOrder s₀ (history ++ [r]) := by
  intro before r' after heq
  rcases List.eq_nil_or_concat after with rfl | ⟨after, last, rfl⟩
  · obtain ⟨rfl, hlast⟩ := List.append_inj' heq rfl
    cases hlast
    exact hr
  · rw [List.concat_eq_append, ← List.cons_append, ← List.append_assoc] at heq
    obtain ⟨hinit, -⟩ := List.append_inj' heq rfl
    exact h before r' after hinit

/-- The seed is part of at most one completed turn. -/
theorem HistoryInOrder.spent_le_one {s₀ : PlatformAgent τ} {history : List TurnStep}
    (h : HistoryInOrder s₀ history) (hseed : s₀.seed ≠ .none) :
    history.countP (TurnStep.spent s₀.seed) ≤ 1 := by
  induction history using List.reverseRecOn with
  | nil => simp
  | append_singleton history r ih =>
    have hprior : HistoryInOrder s₀ history := fun before r' after heq =>
      h before r' (after ++ [r]) (by rw [heq]; simp)
    rw [List.countP_append, List.countP_singleton]
    split
    · -- the seed goes out before any turn is completed
      rename_i hspent
      have hle : history.countP (TurnStep.spent s₀.seed) ≤ completedTurns history := by
        refine List.countP_mono_left fun r' _ hr' => ?_
        rw [TurnStep.spent, Bool.and_eq_true] at hr'
        exact hr'.1
      rw [TurnStep.spent, Bool.and_eq_true] at hspent
      cases hturn : r.turn with
      | none =>
        rw [hturn] at hspent
        cases hspent.2
      | some turn =>
        have hcarries : turn.seed = s₀.seed := by simpa [hturn] using hspent.2
        have hinOrder := ((h history r [] rfl).carries turn hturn).2
        have hzero : completedTurns history = 0 := by
          by_contra hne
          rw [if_neg hne, hcarries] at hinOrder
          exact hseed hinOrder
        omega
    · exact ih hprior

/-- The books of the agent followed are in order. -/
structure Seat.Books (s₀ : PlatformAgent τ) (history : List TurnStep) (u : Seat τ κ) : Prop where
  wf : u.kernel.Wf
  account : ∃ a s, u.kernel.objects[u.ref]? = some a ∧ TurnAccount s₀ history a s
  inOrder : HistoryInOrder s₀ history

section

variable {others : AgentCode (Hosted τ κ)} {adapters : PlatformAdapter τ ρ θ}
  {s₀ : PlatformAgent τ} {history steps : List TurnStep} {u v : Seat τ κ}

/-- **Whatever happens keeps the books.** -/
theorem Seat.Books.next (h : u.Books s₀ history)
    (hnext : Seat.Next (others.hosting adapters) u steps v) : v.Books s₀ (history ++ steps) := by
  obtain ⟨a, s, ha, haccount⟩ := h.account
  cases hnext with
  | restored hsnapshot hrestore ha' hbody hbuilds hreg hreg' =>
    rw [ha] at ha'
    cases ha'
    rw [haccount.body] at hbody
    cases hbody
    obtain ⟨a', s', hobj, haccount'⟩ := haccount.restored hsnapshot hrestore
      (Kernel.agent?_eq_some_iff.mpr ⟨_, hreg, ha⟩) hbuilds hreg'
    rw [List.append_nil]
    exact ⟨Kernel.wf_restore hrestore, ⟨a', s', hobj, haccount'⟩, h.inOrder⟩
  | @act k' act hperf hrests =>
    -- only a tick gives the agent a turn
    have hwf : k'.Wf := Kernel.wf_of_performs (Runs.nil.snoc hperf) h.wf
    cases act with
    | register b p =>
      obtain ⟨-, rfl⟩ := Kernel.register_eq_ok_iff.mp hperf
      obtain ⟨hlt, -⟩ := List.getElem?_eq_some_iff.mp ha
      rw [Kernel.turnSteps, List.append_nil]
      exact ⟨hwf, ⟨a, s, by rw [List.getElem?_append_left hlt, ha], haccount⟩, h.inOrder⟩
    | unregister x =>
      obtain rfl := hperf
      rw [Kernel.turnSteps, List.append_nil]
      exact ⟨hwf, ⟨a, s, ha, haccount⟩, h.inOrder⟩
    | post sender recipient payload metadata =>
      obtain ⟨bus, -, rfl⟩ := Kernel.busPost_eq_ok hperf
      rw [Kernel.turnSteps, List.append_nil]
      exact ⟨hwf, ⟨a, s, ha, haccount⟩, h.inOrder⟩
    | step b loop sched =>
      obtain ⟨-, rfl⟩ := hperf
      rcases Kernel.turnSteps_cases h.wf ha haccount.body hrests with ⟨hnone, hsame⟩
        | ⟨name, inbox, phase, posted, a', s', halive, hone, ha', hbody, hend, hstate⟩
      · rw [hnone, List.append_nil]
        exact ⟨hwf, ⟨a, s, hsame, haccount⟩, h.inOrder⟩
      · rw [hone]
        exact ⟨hwf, ⟨a', s', ha', haccount.step halive hend hbody hstate⟩,
          h.inOrder.append_singleton (haccount.inOrder halive name _ inbox _)⟩

theorem Seat.Fresh.books (h : u.Fresh s₀) : u.Books s₀ [] := by
  refine ⟨h.wf, ?_, fun before r after heq => by simp at heq⟩
  have hagent := h.agent
  unfold Kernel.platformAgent? at hagent
  cases ha : u.kernel.objects[u.ref]? with
  | none =>
    rw [ha] at hagent
    cases hagent
  | some a =>
    rw [ha, Option.map_some] at hagent
    split at hagent
    · cases hagent
      exact ⟨a, s₀, rfl, .fresh (Option.some.inj ‹_›) h.turns h.seeded⟩
    · cases hagent

theorem Seat.Books.runs {es : List (List TurnStep)}
    (hrun : Runs (Seat.Next (others.hosting adapters)) u es v) (h : u.Books s₀ []) :
    v.Books s₀ es.flatten := by
  refine Runs.invariant_history (I := fun es v => Seat.Books s₀ es.flatten v) ?_ hrun h
  intro es v steps w hbooks hnext
  rw [List.flatten_append, List.flatten_singleton]
  exact hbooks.next hnext

end

/-- A platform agent with a seed that is to run one turn. -/
def single : PlatformAgent Unit where
  adapter := ()
  seed := .str "go"
  replyTo := none
  maxTurns := some 1
  seeded := false
  exclusive := seeded.exclusive
  maxTurns_pos := fun _ h => (Option.some.inj h).le

def bureauOps : List (Op (Hosted Unit Unit)) :=
  [.register (bystander "sink" Script.sink_ne) none,
   .register { assistant with body := .user (.inl single) } none]

theorem bureauOps_accepted :
    (Kernel.replay (bystanders.hosting relay) bureauOps {}).isSome = true := by decide

def bureau : Kernel (Hosted Unit Unit) :=
  ((Kernel.replay (bystanders.hosting relay) bureauOps {}).get bureauOps_accepted).2

/-- The kernel after the tick in which the turn fails. -/
def bureauFailed : Kernel (Hosted Unit Unit) :=
  (bureau.stepWith (bystanders.hosting relay) .serial false officeOrder).1

/-- Once there is an agent that the second reply is for. -/
def bureauJoined : Kernel (Hosted Unit Unit) :=
  { bureauFailed with
    objects := bureauFailed.objects ++ [(bystander "late" late_ne).linked none]
    agents := bureauFailed.agents.set "late" bureauFailed.objects.length
    bus := bureauFailed.bus.register "late" }

/-- The tick in which the turn is completed. -/
abbrev bureauOrder : List Nat := [0, 0, 0, 1, 1, 1, 1, 1, 1, 1, 2, 2, 2]

def bureauDone : Kernel (Hosted Unit Unit) :=
  (bureauJoined.stepWith (bystanders.hosting relay) .serial false bureauOrder).1

/-- The first turn of the agent, in the tick `tick`. -/
def firstTurn (tick : Int) : PlatformTurn where
  agent := "assistant"
  tick
  seed := .str "go"

end TitoOS
