import TitoOS.Platforms.Base

/-!
# One turn

Where the step of a platform agent can be (`TurnPoint`), whatever its calls are
answered and whatever the other agents do: the hooks run first, the replies are
dispatched one after the other, and `turns` and `_seeded` are set only once all
of them are out. So a job of a platform agent ends in one of four ways
(`TurnEnd`).
-/

namespace TitoOS

variable {τ ρ θ κ σ : Type}

namespace PlatformAgent

variable (adapters : PlatformAdapter τ ρ θ)

/-- The message that `_dispatch` makes of a reply. -/
def message (s : PlatformAgent τ) (name : String) (turn : PlatformTurn) (reply : Outbound) :
    Message where
  sender := name
  recipient := if s.broadcasts reply then BROADCAST else (s.destination reply turn).getD ""
  payload := reply.payload
  metadata := reply.metadata

/-- The agent once the hooks of a turn have run. -/
def afterHooks (s : PlatformAgent τ) (name : String) (turn : PlatformTurn) : PlatformAgent τ :=
  { s with adapter := (s.hooks adapters name turn).1 }

/-- The agent once a turn is complete. -/
def afterTurn (s : PlatformAgent τ) (name : String) (turn : PlatformTurn) : PlatformAgent τ :=
  { s.afterHooks adapters name turn with seeded := true, turns := s.turns + 1 }

/-- The turn about to be completed is the last one. -/
def isLastTurn (s : PlatformAgent τ) : Bool := s.maxTurns.any fun n => decide (s.turns + 1 ≥ n)

/-- The last call of a completed turn. -/
def lastCall (s : PlatformAgent τ) : Call := if s.isLastTurn then .exit else .wait

/-- A point of the step of a platform agent that started with the attributes
`s`: the calls and the messages so far, its own state and the program left. -/
inductive TurnPoint (inject : PlatformAgent τ → σ) (s : PlatformAgent τ) (name : String)
    (tick : Int) (inbox : List Message) :
    List Call → List Message → Body σ → StepProg σ → Prop
  | opened : s.async = true → TurnPoint inject s name tick inbox [] [] (.user (inject s))
      (.coroutine (s.turnProg inject adapters name tick inbox))
  | started : TurnPoint inject s name tick inbox [] [] (.user (inject s))
      (s.turnProg inject adapters name tick inbox)
  | idle : s.beginTurn name tick inbox = none →
      TurnPoint inject s name tick inbox [.wait] [] (.user (inject s)) .ret
  | hookRaised {turn : PlatformTurn} {e : Exc} : s.beginTurn name tick inbox = some turn →
      (s.hooks adapters name turn).2 = .error e →
      TurnPoint inject s name tick inbox [] [] (.user (inject (s.afterHooks adapters name turn)))
        (.raise e)
  | dispatching {turn : PlatformTurn} {replies : List Outbound} {n : Nat} {calls : List Call} :
      s.beginTurn name tick inbox = some turn → (s.hooks adapters name turn).2 = .ok replies →
      TurnPoint inject s name tick inbox calls ((replies.take n).map (s.message name turn))
        (.user (inject (s.afterHooks adapters name turn)))
        ((s.afterHooks adapters name turn).finish inject adapters name turn (replies.drop n))
  | refused {turn : PlatformTurn} {replies : List Outbound} {n : Nat} {reply : Outbound}
      {calls : List Call} {recipient : String} {e : Exc} :
      s.beginTurn name tick inbox = some turn → (s.hooks adapters name turn).2 = .ok replies →
      replies[n]? = some reply → s.broadcasts reply = false →
      s.destination reply turn = some recipient →
      TurnPoint inject s name tick inbox (calls ++ [.send recipient])
        ((replies.take n).map (s.message name turn))
        (.user (inject (s.afterHooks adapters name turn))) (.raise e)
  | completed {turn : PlatformTurn} {replies : List Outbound} {calls : List Call} :
      s.beginTurn name tick inbox = some turn → (s.hooks adapters name turn).2 = .ok replies →
      TurnPoint inject s name tick inbox calls (replies.map (s.message name turn))
        (.user (inject (s.afterTurn adapters name turn)))
        (if s.isLastTurn then .exit .ret else .wait .ret)
  | left {turn : PlatformTurn} {replies : List Outbound} {calls : List Call} :
      s.beginTurn name tick inbox = some turn → (s.hooks adapters name turn).2 = .ok replies →
      TurnPoint inject s name tick inbox (calls ++ [s.lastCall])
        (replies.map (s.message name turn)) (.user (inject (s.afterTurn adapters name turn))) .ret

/-! ### Dispatching one reply -/

theorem contextSend_cases (recipient : String) (payload : Value) (metadata : Metadata) :
    (∃ e, ∀ rest : Except Exc Unit → StepProg σ,
        contextSend recipient payload metadata rest = rest (.error e))
      ∨ ∀ rest : Except Exc Unit → StepProg σ,
        contextSend recipient payload metadata rest = .send recipient payload metadata rest := by
  unfold contextSend
  cases bindKeywords "Context.send" ["self", "to", "payload"] metadata with
  | error e => exact .inl ⟨e, fun _ => rfl⟩
  | ok =>
    cases bindKeywords "MessageBus.post" ["self", "sender", "to", "payload"] metadata with
    | error e => exact .inl ⟨e, fun _ => rfl⟩
    | ok => exact .inr fun _ => rfl

theorem contextBroadcast_cases (payload : Value) (metadata : Metadata) :
    (∃ e, ∀ rest : Except Exc Unit → StepProg σ,
        contextBroadcast payload metadata rest = rest (.error e))
      ∨ ∀ rest : Except Exc Unit → StepProg σ,
        contextBroadcast payload metadata rest = .broadcast payload metadata (rest (.ok ())) := by
  unfold contextBroadcast
  cases bindKeywords "Context.broadcast" ["self", "payload"] metadata with
  | error e => exact .inl ⟨e, fun _ => rfl⟩
  | ok =>
    cases bindKeywords "MessageBus.broadcast" ["self", "sender", "payload"] metadata with
    | error e => exact .inl ⟨e, fun _ => rfl⟩
    | ok =>
      cases bindKeywords "MessageBus.post" ["self", "sender", "to", "payload"] metadata with
      | error e => exact .inl ⟨e, fun _ => rfl⟩
      | ok => exact .inr fun _ => rfl

/-- The dispatch of the reply raises by itself, before it gets to the bus. -/
def DispatchRaises (adapters : PlatformAdapter τ ρ θ) (s : PlatformAgent τ) (name : String)
    (turn : PlatformTurn) (reply : Outbound) : Prop :=
  ∃ e, ∀ rest : StepProg σ, s.dispatch adapters name turn reply rest = .raise e

/-- The dispatch of the reply has raised in a step with these calls: by itself, or
because the bus has refused its `send`, the last of the calls. -/
def Undelivered (adapters : PlatformAdapter τ ρ θ) (s : PlatformAgent τ) (name : String)
    (turn : PlatformTurn) (reply : Outbound) (calls : List Call) : Prop :=
  s.DispatchRaises (σ := σ) adapters name turn reply
    ∨ ∃ recipient, s.broadcasts reply = false ∧ s.destination reply turn = some recipient
      ∧ calls.getLast? = some (.send recipient)

variable {adapters}

/-- **What `_dispatch` does**: it raises, or puts the message of the reply on the
bus by one call, which may be refused. -/
theorem dispatch_cases (adapters : PlatformAdapter τ ρ θ) (s : PlatformAgent τ) (name : String)
    (turn : PlatformTurn) (reply : Outbound) :
    s.DispatchRaises (σ := σ) adapters name turn reply
      ∨ (s.broadcasts reply = true ∧ ∀ rest : StepProg σ,
        s.dispatch adapters name turn reply rest = .broadcast reply.payload reply.metadata rest)
      ∨ ∃ recipient, s.broadcasts reply = false ∧ s.destination reply turn = some recipient
        ∧ ∀ rest : StepProg σ, s.dispatch adapters name turn reply rest
          = .send recipient reply.payload reply.metadata (orRaise rest) := by
  unfold DispatchRaises dispatch
  cases hb : s.broadcasts reply with
  | true =>
    simp only [if_pos]
    rcases contextBroadcast_cases reply.payload reply.metadata with ⟨e, h⟩ | h
    · exact .inl ⟨e, fun rest => h (orRaise rest)⟩
    · exact .inr (.inl ⟨trivial, fun rest => h (orRaise rest)⟩)
  | false =>
    simp only [if_neg Bool.false_ne_true]
    cases hd : s.destination reply turn with
    | none => exact .inl ⟨_, fun _ => rfl⟩
    | some recipient =>
      rcases contextSend_cases recipient reply.payload reply.metadata with ⟨e, h⟩ | h
      · exact .inl ⟨e, fun rest => h (orRaise rest)⟩
      · exact .inr (.inr ⟨recipient, trivial, rfl, fun rest => h (orRaise rest)⟩)

/-! ### The points of a step -/

namespace TurnPoint

variable {inject : PlatformAgent τ → σ} {s : PlatformAgent τ} {name : String} {tick : Int}
  {inbox : List Message} {calls : List Call} {posted : List Message}

/-- The next action of a step that is about to dispatch the replies from the
`n`-th on. -/
theorem dispatch {turn : PlatformTurn} {replies : List Outbound} {n : Nat}
    (hturn : s.beginTurn name tick inbox = some turn)
    (hreplies : (s.hooks adapters name turn).2 = .ok replies) {deal : Deal} {b : Body σ}
    {p : StepProg σ}
    (hnext : StepProg.Next name (.user (inject (s.afterHooks adapters name turn)),
      (s.afterHooks adapters name turn).finish inject adapters name turn (replies.drop n))
      deal (b, p)) :
    TurnPoint adapters inject s name tick inbox (calls ++ deal.call.toList)
      ((replies.take n).map (s.message name turn) ++ deal.posted.toList) b p
      ∧ deal.inbox = none := by
  rcases Nat.lt_or_ge n replies.length with hlt | hge
  · -- the `n`-th reply is dispatched
    have hdrop : replies.drop n = replies[n] :: replies.drop (n + 1) :=
      List.drop_eq_getElem_cons hlt
    have htake : (replies.take (n + 1)).map (s.message name turn)
        = (replies.take n).map (s.message name turn) ++ [s.message name turn replies[n]] := by
      rw [List.take_succ_eq_append_getElem hlt, List.map_append, List.map_singleton]
    have hdispatched : TurnPoint adapters inject s name tick inbox (calls ++ deal.call.toList)
        ((replies.take n).map (s.message name turn) ++ [s.message name turn replies[n]])
        (.user (inject (s.afterHooks adapters name turn)))
        ((s.afterHooks adapters name turn).finish inject adapters name turn
          (replies.drop (n + 1))) :=
      htake ▸ .dispatching hturn hreplies
    rw [hdrop, finish] at hnext
    rcases dispatch_cases adapters (s.afterHooks adapters name turn) name turn
      replies[n] with ⟨e, h⟩ | ⟨hb, h⟩ | ⟨recipient, hb, hd, h⟩
    · rw [h] at hnext
      cases hnext
    · rw [h] at hnext
      cases hnext
      refine ⟨?_, rfl⟩
      have hb' : s.broadcasts replies[n] = true := hb
      simpa [message, hb'] using hdispatched
    · rw [h] at hnext
      have hb' : s.broadcasts replies[n] = false := hb
      have hd' : s.destination replies[n] turn = some recipient := hd
      cases hnext with
      | sent =>
        refine ⟨?_, rfl⟩
        simpa [message, hb', hd', orRaise] using hdispatched
      | refused he =>
        have hrefused : ∀ e, TurnPoint adapters inject s name tick inbox
            (calls ++ [.send recipient]) ((replies.take n).map (s.message name turn))
            (.user (inject (s.afterHooks adapters name turn))) (.raise e) :=
          fun e => .refused hturn hreplies (List.getElem?_eq_getElem hlt) hb' hd'
        refine ⟨?_, rfl⟩
        simpa [orRaise] using hrefused _
  · -- all replies are out
    rw [List.drop_eq_nil_of_le hge, finish, complete] at hnext
    rw [List.take_of_length_le hge]
    cases hnext
    refine ⟨?_, rfl⟩
    simp only [Option.toList_none, List.append_nil]
    exact .completed hturn hreplies

/-- **One action keeps the step at one of its points.** -/
theorem next {b b' : Body σ} {p p' : StepProg σ} {deal : Deal}
    (h : TurnPoint adapters inject s name tick inbox calls posted b p)
    (hnext : StepProg.Next name (b, p) deal (b', p')) :
    TurnPoint adapters inject s name tick inbox (calls ++ deal.call.toList)
      (posted ++ deal.posted.toList) b' p' ∧ deal.inbox = none := by
  cases h with
  | opened hasync =>
    cases hnext
    exact ⟨.started, rfl⟩
  | started =>
    unfold turnProg at hnext
    cases hturn : s.beginTurn name tick inbox with
    | none =>
      rw [hturn] at hnext
      cases hnext
      exact ⟨.idle hturn, rfl⟩
    | some turn =>
      rw [hturn] at hnext
      cases hnext
      refine ⟨?_, rfl⟩
      cases hhooks : (s.hooks adapters name turn).2 with
      | error e => exact .hookRaised hturn hhooks
      | ok replies => exact .dispatching (n := 0) hturn hhooks
  | idle | left => cases hnext
  | hookRaised | refused => cases hnext
  | dispatching hturn hreplies => exact dispatch hturn hreplies hnext
  | completed hturn hreplies =>
    have hleft : TurnPoint adapters inject s name tick inbox (calls ++ [s.lastCall]) _
        (.user (inject (s.afterTurn adapters name _))) .ret := .left hturn hreplies
    unfold lastCall at hleft
    cases hlast : s.isLastTurn <;> rw [hlast] at hnext hleft <;> cases hnext <;>
      exact ⟨by simpa using hleft, rfl⟩

/-- **Every run of the step goes through its points** and leaves `ctx.inbox`
alone. -/
theorem of_runs {deals : List Deal} {b : Body σ} {p : StepProg σ}
    (h : Runs (StepProg.Next name) (.user (inject s), s.step inject adapters name tick inbox) deals
      (b, p)) :
    TurnPoint adapters inject s name tick inbox (deals.filterMap Deal.call)
      (deals.filterMap Deal.posted) b p ∧ deals.filterMap Deal.inbox = [] := by
  refine Runs.invariant_history (I := fun deals (u : Body σ × StepProg σ) =>
    TurnPoint adapters inject s name tick inbox (deals.filterMap Deal.call)
      (deals.filterMap Deal.posted) u.1 u.2 ∧ deals.filterMap Deal.inbox = []) ?_ h ?_
  · rintro deals ⟨b, p⟩ deal ⟨b', p'⟩ ⟨hpoint, hinbox⟩ hnext
    obtain ⟨hpoint', hnone⟩ := hpoint.next hnext
    have hone : ∀ {α : Type} (f : Deal → Option α),
        (deals ++ [deal]).filterMap f = deals.filterMap f ++ (f deal).toList := by
      intro α f
      rw [List.filterMap_append]
      cases hf : f deal <;> simp [hf]
    rw [hone, hone, hone, hinbox, hnone]
    exact ⟨hpoint', rfl⟩
  · refine ⟨?_, rfl⟩
    unfold step
    split
    · exact .opened ‹_›
    · exact .started

end TurnPoint

/-! ### How a step ends -/

/-- A program that dispatches replies raises only where it dispatches one. -/
theorem finish_raise {inject : PlatformAgent τ → σ} {s : PlatformAgent τ} {name : String}
    {turn : PlatformTurn} {replies : List Outbound} {n : Nat} {e : Exc}
    (h : s.finish inject adapters name turn (replies.drop n) = .raise e) :
    ∃ reply, replies[n]? = some reply ∧ s.DispatchRaises (σ := σ) adapters name turn reply := by
  rcases Nat.lt_or_ge n replies.length with hn | hn
  · rw [List.drop_eq_getElem_cons hn, finish] at h
    refine ⟨replies[n], List.getElem?_eq_getElem hn, ?_⟩
    rcases dispatch_cases adapters s name turn replies[n] with hraises | ⟨-, h'⟩ | ⟨_, -, -, h'⟩
    · exact hraises
    · rw [h'] at h
      cases h
    · rw [h'] at h
      cases h
  · rw [List.drop_eq_nil_of_le hn, finish, complete] at h
    cases h

/-- A program that dispatches replies neither returns yet nor makes a
coroutine. -/
theorem finish_cases {inject : PlatformAgent τ → σ} {s : PlatformAgent τ} {name : String}
    {turn : PlatformTurn} {replies : List Outbound} :
    s.finish inject adapters name turn replies ≠ .ret
      ∧ ∀ body, s.finish inject adapters name turn replies ≠ .coroutine body := by
  cases replies with
  | nil => exact ⟨nofun, nofun⟩
  | cons reply rest =>
    rw [finish]
    rcases dispatch_cases adapters s name turn reply with ⟨e, h⟩ | ⟨-, h⟩ | ⟨r, -, -, h⟩ <;>
      rw [h] <;> exact ⟨nofun, nofun⟩

namespace TurnPoint

variable {inject : PlatformAgent τ → σ} {s : PlatformAgent τ} {name : String} {tick : Int}
  {inbox : List Message} {calls : List Call} {posted : List Message} {b : Body σ} {p : StepProg σ}

/-- Where a step returns. -/
theorem of_ret (h : TurnPoint adapters inject s name tick inbox calls posted b p) (hp : p = .ret) :
    (s.beginTurn name tick inbox = none ∧ calls = [.wait] ∧ posted = [] ∧ b = .user (inject s))
      ∨ ∃ turn replies before, s.beginTurn name tick inbox = some turn
        ∧ (s.hooks adapters name turn).2 = .ok replies ∧ calls = before ++ [s.lastCall]
        ∧ posted = replies.map (s.message name turn)
        ∧ b = .user (inject (s.afterTurn adapters name turn)) := by
  cases h with
  | idle hturn => exact .inl ⟨hturn, rfl, rfl, rfl⟩
  | left hturn hreplies => exact .inr ⟨_, _, _, hturn, hreplies, rfl, rfl, rfl⟩
  | opened | hookRaised | refused => cases hp
  | started =>
    unfold turnProg at hp
    split at hp <;> cases hp
  | dispatching => exact absurd hp finish_cases.1
  | completed => split at hp <;> cases hp

/-- Where a step raises. -/
theorem of_raise {e : Exc} (h : TurnPoint adapters inject s name tick inbox calls posted b p)
    (hp : p = .raise e) :
    ∃ turn, s.beginTurn name tick inbox = some turn
      ∧ b = .user (inject (s.afterHooks adapters name turn))
      ∧ (((s.hooks adapters name turn).2 = .error e ∧ posted = [])
        ∨ ∃ replies n reply, (s.hooks adapters name turn).2 = .ok replies
          ∧ replies[n]? = some reply ∧ posted = (replies.take n).map (s.message name turn)
          ∧ (s.afterHooks adapters name turn).Undelivered (σ := σ) adapters name turn reply
              calls) := by
  cases h with
  | opened | idle | left => cases hp
  | started =>
    unfold turnProg at hp
    split at hp <;> cases hp
  | hookRaised hturn hraised =>
    cases hp
    exact ⟨_, hturn, rfl, .inl ⟨hraised, rfl⟩⟩
  | dispatching hturn hreplies =>
    obtain ⟨reply, hreply, hraises⟩ := finish_raise hp
    exact ⟨_, hturn, rfl, .inr ⟨_, _, reply, hreplies, hreply, rfl, .inl hraises⟩⟩
  | refused hturn hreplies hreply hb hd =>
    exact ⟨_, hturn, rfl, .inr ⟨_, _, _, hreplies, hreply, rfl,
      .inr ⟨_, hb, hd, List.getLast?_concat⟩⟩⟩
  | completed => split at hp <;> cases hp

/-- Only an `async def` makes a coroutine. -/
theorem of_coroutine {body : StepProg σ}
    (h : TurnPoint adapters inject s name tick inbox calls posted b p) (hp : p = .coroutine body) :
    s.async = true := by
  cases h with
  | opened hasync => exact hasync
  | idle | left | hookRaised | refused => cases hp
  | started =>
    unfold turnProg at hp
    split at hp <;> cases hp
  | dispatching => exact absurd hp (finish_cases.2 body)
  | completed => split at hp <;> cases hp

end TurnPoint

/-- How the step of a platform agent with attributes `s` has ended: the phase
its job is in, the messages it has put on the bus, and its attributes now. -/
inductive TurnEnd (adapters : PlatformAdapter τ ρ θ) (s : PlatformAgent τ) (name : String)
    (tick : Int) (inbox : List Message) : Phase σ → List Message → PlatformAgent τ → Prop
  /-- There was nothing to do. -/
  | idle {list : List Message} : s.beginTurn name tick inbox = none →
      TurnEnd adapters s name tick inbox (.returned [.wait] list) [] s
  | completed {turn : PlatformTurn} {replies : List Outbound} {calls : List Call}
      {list : List Message} : s.beginTurn name tick inbox = some turn →
      (s.hooks adapters name turn).2 = .ok replies →
      TurnEnd adapters s name tick inbox (.returned (calls ++ [s.lastCall]) list)
        (replies.map (s.message name turn)) (s.afterTurn adapters name turn)
  /-- One of the hooks raised. -/
  | hookRaised {turn : PlatformTurn} {e : Exc} {phase : Phase σ} :
      s.beginTurn name tick inbox = some turn → (s.hooks adapters name turn).2 = .error e →
      phase.isReturned = false →
      TurnEnd adapters s name tick inbox phase [] (s.afterHooks adapters name turn)
  /-- The dispatch of the `n`-th reply raised. -/
  | undelivered {turn : PlatformTurn} {replies : List Outbound} {n : Nat} {reply : Outbound}
      {phase : Phase σ} :
      s.beginTurn name tick inbox = some turn → (s.hooks adapters name turn).2 = .ok replies →
      replies[n]? = some reply →
      (s.afterHooks adapters name turn).Undelivered (σ := σ) adapters name turn reply
        phase.calls →
      phase.isReturned = false →
      TurnEnd adapters s name tick inbox phase ((replies.take n).map (s.message name turn))
        (s.afterHooks adapters name turn)

end PlatformAgent

open PlatformAgent

/-- **How the job of a platform agent ends**, in any tick: in one of the ways of
`TurnEnd`, with its list of messages as it was drained. -/
theorem Job.Follows.turnEnd {others : AgentCode (Hosted τ κ)} {adapters : PlatformAdapter τ ρ θ}
    {async : Bool} {k : Kernel (Hosted τ κ)} {job : Job (Hosted τ κ)} {a b : Agent (Hosted τ κ)}
    {posted : List Message} (h : job.Follows (others.hosting adapters) async k a b posted)
    {s : PlatformAgent τ} (hbody : a.body = .user (.inl s)) (hname : a.name = job.name)
    (hasync : s.async = true → async = true)
    (hstarted : job.phase.isPending = false) (hended : job.phase.isRunning = false) :
    ∃ s', b.body = .user (.inl s') ∧ job.handedBack = job.inbox
      ∧ TurnEnd adapters s job.name (k.tick + 1) job.inbox job.phase posted s' := by
  rcases h with ⟨hp, -⟩ | ⟨deals, rest, hrun, hcalls, rfl, hinbox, hleaves⟩
  · rw [hp] at hstarted
    cases hstarted
  · have hstarts : job.starts (others.hosting adapters) k a
        = (.user (.inl s), s.step .inl adapters job.name (k.tick + 1) job.inbox) := by
      simp only [Job.starts, AgentCode.stepOf, hbody, AgentCode.hosting, hname]
    rw [hstarts] at hrun
    obtain ⟨hpoint, hnone⟩ := TurnPoint.of_runs hrun
    rw [hnone] at hinbox
    have hback : job.handedBack = job.inbox := Job.handedBack_of_inbox? hinbox
    -- a step that raises, into the kernel or past it, has raised in a hook or in a dispatch
    have hraised : ∀ e, rest = .raise e → job.phase.isReturned = false →
        ∃ s', b.body = .user (.inl s') ∧ job.handedBack = job.inbox
          ∧ TurnEnd adapters s job.name (k.tick + 1) job.inbox job.phase
            (deals.filterMap Deal.posted) s' := by
      intro e hrest hphase
      obtain ⟨turn, hturn, hb, hcases⟩ := hpoint.of_raise hrest
      refine ⟨_, hb, hback, ?_⟩
      rcases hcases with ⟨herror, hposted⟩
        | ⟨replies, n, reply, hreplies, hreply, hposted, hraised⟩
      · rw [hposted]
        exact .hookRaised hturn herror hphase
      · rw [hposted]
        rw [hcalls] at hraised
        exact .undelivered hturn hreplies hreply hraised hphase
    cases hp : job.phase with
    | pending => rw [hp] at hstarted; cases hstarted
    | running => rw [hp] at hended; cases hended
    | failed calls list =>
      rw [hp] at hleaves hraised
      obtain ⟨e, hrest, -⟩ := hleaves
      exact hraised e hrest rfl
    | escaped e calls list =>
      rw [hp] at hleaves hraised
      exact hraised e hleaves.1 rfl
    | returned calls list =>
      rw [hp] at hleaves hcalls
      rcases hleaves with hret | ⟨hsync, body, hbody'⟩
      -- a step that returns had no new mail, or has sent the last reply
      · rcases hpoint.of_ret hret with ⟨hturn, hwait, hposted, hb⟩
          | ⟨turn, replies, before, hturn, hreplies, hlast, hposted, hb⟩
        · rw [hposted, show calls = [.wait] from hcalls.symm.trans hwait]
          exact ⟨s, hb, hback, .idle hturn⟩
        · rw [hposted, show calls = before ++ [s.lastCall] from hcalls.symm.trans hlast]
          exact ⟨_, hb, hback, .completed hturn hreplies⟩
      · rw [hasync (hpoint.of_coroutine hbody')] at hsync
        cases hsync

end TitoOS
