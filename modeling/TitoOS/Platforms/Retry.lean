import TitoOS.Platforms.Turn
import TitoOS.Reporting

/-!
# Failed turns

A platform turn that fails leaves `turns` and `_seeded` alone, but the replies
dispatched before the failure stay on the bus: there is no transaction around
the turn, as there is none around the step of any agent. After a restart the
turn is redelivered, and a turn that completes dispatches each of its replies
once more.
-/

namespace TitoOS

variable {τ ρ θ κ σ : Type}

namespace PlatformAgent

/-- A redelivered turn: the same agent but for its adapter finds at least the
same messages, and the seed if it was there. -/
theorem beginTurn_redelivered {s s' : PlatformAgent τ} (hseed : s'.seed = s.seed)
    (hseeded : s'.seeded = s.seeded) {name : String} {tick tick' : Int}
    {inbox more : List Message} {turn : PlatformTurn}
    (h : s.beginTurn name tick inbox = some turn) :
    s'.beginTurn name tick' (inbox ++ more)
      = some { turn with tick := tick', messages := turn.messages ++ more } := by
  unfold beginTurn at h ⊢
  split at h
  · cases h
  · rename_i hsome
    cases h
    rw [hseed, hseeded, if_neg]
    cases inbox with
    | nil => simpa using fun _ => hsome
    | cons m ms => simp

end PlatformAgent

/-! ## The platform agents of a tick -/

section

variable {others : AgentCode (Hosted τ κ)} {adapters : PlatformAdapter τ ρ θ}
  {k k' : Kernel (Hosted τ κ)} {b : Backend} {loop : Bool}

/-- An accepted tick schedules an `AsyncPlatformAgent` on `AsyncBackend` only. -/
theorem async_of_accepted (hrefused : k.refused (others.hosting adapters) b loop = none)
    {t : TickState (Hosted τ κ)} (hin : InTick k t) {job : Job (Hosted τ κ)} (hjob : job ∈ t.jobs)
    {a : Agent (Hosted τ κ)} (ha : k.objects[job.ref]? = some a) {s : PlatformAgent τ}
    (hbody : a.body = .user (.inl s)) (hasync : s.async = true) : b.isAsync = true := by
  by_contra hsync
  obtain ⟨job', hmem, href, -⟩ := TickState.exists_of_fixed hin.fixed hjob
  obtain ⟨⟨⟨ref, c⟩, inbox⟩, hsched, rfl⟩ := List.mem_map.mp hmem
  obtain ⟨-, hc, -⟩ := Kernel.mem_liveSnapshot.mp (List.of_mem_zip (List.mem_filter.mp hsched).1).1
  obtain rfl : ref = job.ref := href
  rw [ha] at hc
  cases hc
  rw [Kernel.refused, Backend.refuses, if_neg hsync, Option.map_eq_none_iff,
    List.find?_eq_none] at hrefused
  refine hrefused a (List.mem_map_of_mem hsched) ?_
  simp [AgentCode.isAsyncAgent, hbody, AgentCode.hosting, hasync]

/-- **What becomes of a platform agent in a tick**: once its step is over, it has
ended in one of the ways of `TurnEnd`. -/
theorem turnEnd_of_tick (hwf : k.Wf)
    (hrefused : k.refused (others.hosting adapters) b loop = none) {sched : List Nat} {i : Nat}
    {job : Job (Hosted τ κ)}
    (hjob : (k.beginTick.exec (others.hosting adapters) b.isAsync sched).jobs[i]? = some job)
    {a : Agent (Hosted τ κ)} (ha : k.objects[job.ref]? = some a) {s : PlatformAgent τ}
    (hbody : a.body = .user (.inl s))
    (hstarted : job.phase.isPending = false) (hended : job.phase.isRunning = false) :
    ∃ c s', (k.beginTick.exec (others.hosting adapters) b.isAsync sched).kernel.objects[job.ref]?
        = some c
      ∧ c.body = .user (.inl s') ∧ job.handedBack = job.inbox
      ∧ s.TurnEnd adapters job.name (k.tick + 1) job.inbox job.phase
        (k.beginTick.postedBy (others.hosting adapters) b.isAsync i sched) s' := by
  obtain ⟨hin, hfollows⟩ := Followed.exec hwf (others.hosting adapters) b.isAsync sched
  have hmem := List.mem_of_getElem? hjob
  obtain ⟨a', -, ha', hname, -⟩ := hin.origin hwf hmem
  rw [ha] at ha'
  cases ha'
  obtain ⟨c, hc, -⟩ := hin.job_object hwf hmem
  obtain ⟨s', hs', hback, hend⟩ := (hfollows i job hjob a c ha hc).turnEnd hbody hname
    (async_of_accepted hrefused hin hmem ha hbody) hstarted hended
  exact ⟨c, s', hc, hs', hback, hend⟩

end

/-! ## Failed turns -/

/-- What a step of a platform agent with attributes `s` that raised leaves, with its
job in the phase `phase`: the attributes `s'`, and on the bus the replies before the
one whose dispatch raised. -/
structure FailedTurn (adapters : PlatformAdapter τ ρ θ) (s : PlatformAgent τ) (name : String)
    (turn : PlatformTurn) (phase : Phase σ) (posted : List Message) (s' : PlatformAgent τ) :
    Prop where
  turns : s'.turns = s.turns
  seeded : s'.seeded = s.seeded
  seed : s'.seed = s.seed
  /-- A hook raised, or the dispatch of one of the replies did. -/
  posted : (posted = [] ∧ ∃ e, (s.hooks adapters name turn).2 = .error e)
    ∨ ∃ replies n reply, (s.hooks adapters name turn).2 = .ok replies ∧ replies[n]? = some reply
      ∧ posted = (replies.take n).map (s.message name turn)
      ∧ (s.afterHooks adapters name turn).Undelivered (σ := σ) adapters name turn reply phase.calls

theorem PlatformAgent.TurnEnd.failed {adapters : PlatformAdapter τ ρ θ} {s s' : PlatformAgent τ}
    {name : String} {tick : Int} {inbox : List Message} {phase : Phase σ} {posted : List Message}
    (h : s.TurnEnd adapters name tick inbox phase posted s') (hphase : phase.isReturned = false) :
    ∃ turn, s.beginTurn name tick inbox = some turn
      ∧ FailedTurn adapters s name turn phase posted s' := by
  cases h with
  | idle | completed => cases hphase
  | hookRaised hturn herror => exact ⟨_, hturn, rfl, rfl, rfl, .inl ⟨rfl, _, herror⟩⟩
  | undelivered hturn hreplies hreply hraised =>
    exact ⟨_, hturn, rfl, rfl, rfl, .inr ⟨_, _, _, hreplies, hreply, rfl, hraised⟩⟩

/-- The agent at `ref` is READY again in `k'` with the attributes `s'`, the inbox
of its failed turn is back at the front of its mailbox, and so its next turn is
the failed one with the mail that has come in since. -/
structure Redelivered (ref : Nat) (name : String) (inbox : List Message) (turn : PlatformTurn)
    (s' : PlatformAgent τ) (k' : Kernel (Hosted τ κ)) : Prop where
  agent : ∃ c, k'.objects[ref]? = some c ∧ c.state = .ready ∧ c.body = .user (.inl s')
  mail : ∀ mailbox, k'.bus.mailboxes.get? name = some mailbox → inbox <+: mailbox
  turn : ∀ tick more, s'.beginTurn name tick (inbox ++ more)
    = some { turn with tick, messages := turn.messages ++ more }

/-- A restart redelivers the failed turn. -/
theorem redelivered_of_restarted {others : AgentCode (Hosted τ κ)}
    {adapters : PlatformAdapter τ ρ θ} {k k' : Kernel (Hosted τ κ)} (hwf : k.Wf)
    {t : TickState (Hosted τ κ)} (hin : InTick k t) {names : List String}
    (hout : TickOutcome (others.hosting adapters) k t k' names) {job : Job (Hosted τ κ)}
    (hmem : job ∈ t.jobs) (hrestarted : job.name ∈ names) {c : Agent (Hosted τ κ)}
    (hc : t.kernel.objects[job.ref]? = some c) {s s' : PlatformAgent τ}
    (hbody : c.body = .user (.inl s')) (hback : job.handedBack = job.inbox)
    {turn : PlatformTurn} (hturn : s.beginTurn job.name (k.tick + 1) job.inbox = some turn)
    (hseed : s'.seed = s.seed) (hseeded : s'.seeded = s.seeded) :
    Redelivered job.ref job.name job.inbox turn s' k' := by
  rw [hout.restarted, TickState.casualties, List.filter_filter,
    mem_map_filter_of_nodup_map (hin.names_nodup hwf) hmem, Bool.and_eq_true] at hrestarted
  obtain ⟨hwill, hfailed⟩ := hrestarted
  have hmay : Kernel.mayRestart c = true := by
    simpa [Kernel.willRestart, hc] using hwill
  have hconcluded := hout.job _ hmem c hc
  rw [Job.concluded, hfailed, hmay, Bool.and_self, if_pos rfl] at hconcluded
  refine ⟨⟨_, hconcluded, rfl, ?_⟩, fun mailbox hbox => ?_,
    fun tick more => PlatformAgent.beginTurn_redelivered hseed hseeded hturn⟩
  · simp [Kernel.restarted, AgentCode.restartOf, hbody, AgentCode.hosting]
  · rw [hout.box] at hbox
    split at hbox
    · cases hbox
    · obtain ⟨rest, -, rfl⟩ := Option.map_eq_some_iff.mp hbox
      rw [hin.requeued_of_job hwf hmem, hfailed, hwill, hback, Bool.and_self, if_pos rfl]
      exact List.prefix_append _ _

/-- **A failed platform turn sends the replies before the failure**, whatever
the adapter and the other agents do: a step that raises, an `Exception` or another
`BaseException`, leaves `turns` and `_seeded` alone and has put on the bus the
replies before the one whose dispatch raised, once each, none if a hook raised.
When the agent is restarted the turn is redelivered, and a step that completes a
turn puts each of its replies on the bus once. -/
theorem failed_turn_sends {others : AgentCode (Hosted τ κ)}
    {adapters : PlatformAdapter τ ρ θ} {k : Kernel (Hosted τ κ)} (hwf : k.Wf) {b : Backend}
    {loop : Bool} {sched : List Nat} {i : Nat} {job : Job (Hosted τ κ)}
    (hjob : (k.tickWith (others.hosting adapters) b loop sched).jobs[i]? = some job)
    {a : Agent (Hosted τ κ)} (ha : k.objects[job.ref]? = some a) {s : PlatformAgent τ}
    (hbody : a.body = .user (.inl s)) :
    (job.phase.isFailed = true ∨ (job.phase.escaped?).isSome = true →
      ∃ turn c s', s.beginTurn job.name (k.tick + 1) job.inbox = some turn
        ∧ (k.tickWith (others.hosting adapters) b loop sched).kernel.objects[job.ref]? = some c
        ∧ c.body = .user (.inl s')
        ∧ FailedTurn adapters s job.name turn job.phase
          (k.beginTick.postedBy (others.hosting adapters) b.isAsync i sched) s'
        ∧ ∀ k' report, k.stepWith (others.hosting adapters) b loop sched = (k', .ok report) →
          job.name ∈ report.restarted → Redelivered job.ref job.name job.inbox turn s' k')
    ∧ (job.phase.isReturned = true →
      ∀ turn, s.beginTurn job.name (k.tick + 1) job.inbox = some turn →
        ∃ replies, (s.hooks adapters job.name turn).2 = .ok replies
          ∧ k.beginTick.postedBy (others.hosting adapters) b.isAsync i sched
            = replies.map (s.message job.name turn)) := by
  cases hrefused : k.refused (others.hosting adapters) b loop with
  | some e =>
    -- a refused tick has started no job
    rw [Kernel.tickWith, hrefused] at hjob
    obtain ⟨hpending, -⟩ := Kernel.object_of_mem_beginTick (List.mem_of_getElem? hjob)
    rw [hpending]
    exact ⟨(fun h => by rcases h with h | h <;> cases h), (fun h => by cases h)⟩
  | none =>
    rw [Kernel.tickWith_of_accepted hrefused] at hjob ⊢
    have hmem := List.mem_of_getElem? hjob
    have hin := (InTick.begin hwf).exec hwf (others.hosting adapters) b.isAsync sched
    have hend := turnEnd_of_tick hwf hrefused hjob ha hbody
    constructor
    · intro hraised
      obtain ⟨hpending, hrunning, hreturned⟩ :=
        hraised.elim Phase.not_isPending_of_isFailed Phase.not_isPending_of_escaped
      obtain ⟨c, s', hc, hs', hback, hturnEnd⟩ := hend hpending hrunning
      obtain ⟨turn, hturn, hleft⟩ := hturnEnd.failed hreturned
      refine ⟨turn, c, s', hturn, hc, hs', hleft, fun k' report hstep hrestarted => ?_⟩
      obtain ⟨-, -, hbarrier⟩ := Kernel.barrier_of_stepWith hstep
      obtain ⟨names, hout⟩ := hin.outcome_of_barrier hwf hbarrier
      obtain rfl := hin.report_of_barrier hwf hbarrier
      refine redelivered_of_restarted hwf hin hout hmem ?_ hc hs' hback hturn hleft.seed
        hleft.seeded
      rwa [hout.restarted, hin.restarted_eq hwf]
    · intro hreturned turn hturn
      obtain ⟨hpending, hrunning⟩ := Phase.not_isPending_of_isReturned hreturned
      obtain ⟨c, s', -, -, -, hturnEnd⟩ := hend hpending hrunning
      generalize job.phase = phase at hreturned hturnEnd
      generalize k.beginTick.postedBy (others.hosting adapters) b.isAsync i sched = posted
        at hturnEnd ⊢
      cases hturnEnd with
      | idle hnone => rw [hturn] at hnone; cases hnone
      | completed hturn' hreplies =>
        rw [hturn] at hturn'
        cases hturn'
        exact ⟨_, hreplies, rfl⟩
      | hookRaised _ _ hphase' | undelivered _ _ _ _ hphase' =>
        rw [hreturned] at hphase'
        cases hphase'

/-! ## A turn that fails halfway -/

/-- An adapter whose platform has something to say to two agents. -/
def relay : PlatformAdapter Unit Unit (List Outbound) where
  name _ := "relay"
  toPlatform _ _ := ((), .ok ())
  invoke _ _ _ := ((), .ok (.result [
    { payload := .str "one", recipient := some "sink" },
    { payload := .str "two", recipient := some "late" }]))
  fromPlatform _ replies _ := ((), .ok replies)
  saveState _ := ∅
  loadState _ _ := .ok ()

/-- Agents that only wait, next to platform agents. -/
def bystanders : AgentCode (Hosted Unit Unit) where
  step _ _ _ _ := .wait .ret
  onRestart s _ := (s, none)
  isAsync _ := false
  kind _ := "Bystander"
  saveState _ := ∅
  loadState s _ := .ok s

/-- A new agent that only waits. -/
def bystander (name : String) (name_ne : name ≠ "") : FreshAgent (Hosted Unit Unit) where
  name
  name_ne
  body := .user (.inr ())
  fresh_state := rfl
  fresh_restarts := FreshAgent.default_restarts

/-- A new platform agent with a seed. -/
def seeded : PlatformAgent Unit where
  adapter := ()
  seed := .str "go"
  replyTo := none
  maxTurns := none
  seeded := false
  exclusive := nofun
  maxTurns_pos := nofun

/-- A platform agent that is restarted. -/
def assistant : FreshAgent (Hosted Unit Unit) where
  name := "assistant"
  name_ne := by decide
  body := .user (.inl seeded)
  restartPolicy := .onFailure
  fresh_state := rfl
  fresh_restarts := FreshAgent.default_restarts

def officeOps : List (Op (Hosted Unit Unit)) :=
  [.register (bystander "sink" Script.sink_ne) none, .register assistant none]

theorem officeOps_accepted :
    (Kernel.replay (bystanders.hosting relay) officeOps {}).isSome = true := by decide

def office : Kernel (Hosted Unit Unit) :=
  ((Kernel.replay (bystanders.hosting relay) officeOps {}).get officeOps_accepted).2

/-- The first reply goes out, the second one finds no mailbox. -/
abbrev officeOrder : List Nat := [0, 0, 0, 1, 1, 1, 1, 1]

/-- The assistant's job at the end. -/
def officeJob : Job (Hosted Unit Unit) :=
  { ref := 1, name := "assistant", inbox := []
    phase := .failed [.send "sink", .send "late"] [] }

theorem failed_turn_sends_office :
    ∃ turn c s', seeded.beginTurn "assistant" 1 [] = some turn
      ∧ (office.tickWith (bystanders.hosting relay) .serial false officeOrder).kernel.objects[1]?
        = some c
      ∧ c.body = .user (.inl s')
      ∧ FailedTurn relay seeded "assistant" turn officeJob.phase
        (office.beginTick.postedBy (bystanders.hosting relay) false 1 officeOrder) s'
      ∧ ∀ k' report, office.stepWith (bystanders.hosting relay) .serial false officeOrder
          = (k', .ok report) → "assistant" ∈ report.restarted →
        Redelivered 1 "assistant" [] turn s' k' :=
  (@failed_turn_sends Unit Unit (List Outbound) Unit bystanders relay office
    (Kernel.wf_of_performs ((Kernel.reached_of_replay officeOps_accepted).mono fun _ _ _ h => h.1)
      Kernel.sound_init.wf) .serial false officeOrder 1 officeJob rfl assistant.toAgent rfl seeded
    rfl).1 (.inl rfl)

theorem late_ne : "late" ≠ "" := by decide

/-- The second reply finds a mailbox in the second tick. -/
def retriedOps : List (Op (Hosted Unit Unit)) :=
  officeOps ++ [.tick .serial officeOrder, .register (bystander "late" late_ne) none]

theorem retriedOps_accepted :
    (Kernel.replay (bystanders.hosting relay) retriedOps {}).isSome = true := by decide

def retried : Kernel (Hosted Unit Unit) :=
  ((Kernel.replay (bystanders.hosting relay) retriedOps {}).get retriedOps_accepted).2

/-- **A failed turn has sent**: the first reply is on the bus although the turn
failed, and again once the turn has been redelivered and has succeeded. -/
theorem failed_turn_has_sent :
    (office.stepWith (bystanders.hosting relay) .serial false officeOrder).2
        = .ok { tick := 1, ran := ["sink"], failed := ["assistant"], restarted := ["assistant"] }
      ∧ office.beginTick.postedBy (bystanders.hosting relay) false 1 officeOrder
        = [⟨"assistant", "sink", .str "one", ∅⟩]
      ∧ retried.inboxOf "sink" = [⟨"assistant", "sink", .str "one", ∅⟩]
      ∧ (retried.stepWith (bystanders.hosting relay) .serial false
          [0, 0, 0, 1, 1, 1, 1, 1, 1, 1, 2, 2, 2]).2
        = .ok { tick := 2, ran := ["sink", "assistant", "late"], failed := [] }
      ∧ (retried.stepWith (bystanders.hosting relay) .serial false
          [0, 0, 0, 1, 1, 1, 1, 1, 1, 1, 2, 2, 2]).1.inboxOf "sink"
        = [⟨"assistant", "sink", .str "one", ∅⟩] := by
  refine ⟨by decide, by decide, by decide, by decide, by decide⟩

end TitoOS
