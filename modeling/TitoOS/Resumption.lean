import TitoOS.Encoding
import TitoOS.Kernel.Loop
import TitoOS.Restoration

/-!
# A run in several processes

A session on a kernel: agents are registered, messages are posted, ticks are
run, and now and then the kernel is saved to JSON text and another process goes
on with what it restores from that text. Nobody can tell where it was: the same
session without the restarts gives the same answers and ends alike
(`session_resumes`).
-/

namespace TitoOS

variable {σ : Type}

/-- What happens in a session, with what the calls gave back. -/
inductive SessionEvent (σ : Type) where
  | register (agent : FreshAgent σ) (parent : Option String) (answer : Except Exc Unit)
  | post (sender recipient : String) (payload : Value) (metadata : Metadata)
      (answer : Except Exc Unit)
  /-- `Kernel.run`, with its reports and `stop_reason` -/
  | run (maxTicks : Int) (reports : List TickReport) (reason : Option StopReason)
  /-- the kernel goes on in another process, from the text it was saved to -/
  | resume (factories : Dict String (AgentFactory σ)) (text : String)

/-- A restart. -/
def SessionEvent.isResume : SessionEvent σ → Bool
  | resume .. => true
  | _ => false

namespace Kernel

/-- The kernel after a call that changes it unless it raises, and what it gave back. -/
def after (k : Kernel σ) : Except Exc (Kernel σ) → Kernel σ × Except Exc Unit
  | .ok k' => (k', .ok ())
  | .error e => (k, .error e)

/-- One event of a session. A kernel is saved where the factories rebuild its
agents and its data is JSON. -/
inductive Session (code : AgentCode σ) (json : JsonModule) :
    Kernel σ → SessionEvent σ → Kernel σ → Prop
  | register (k : Kernel σ) (a : FreshAgent σ) (p : Option String) :
      Session code json k (.register a p (k.after (k.register a p)).2) (k.after (k.register a p)).1
  | post (k : Kernel σ) (s r : String) (p : Value) (m : Metadata) :
      Session code json k (.post s r p m (k.after (k.busPost s r p m)).2)
        (k.after (k.busPost s r p m)).1
  | run {k k' : Kernel σ} {n : Int} {reports : List TickReport} :
      k.run code n = (k', .ok reports) → Session code json k (.run n reports k'.stopReason) k'
  | resume {k l : Kernel σ} {factories : Dict String (AgentFactory σ)} {s s' : Snapshot}
      {text : String} (hsnapshot : k.snapshot code = .ok s) (hplain : s.IsJson)
      (hbuild : ∀ x a, k.agent? x = some a → Rebuilds code factories a)
      (hsave : s.toJson json = .ok text) (hload : Snapshot.fromJson json text = .ok s')
      (hrestore : Kernel.restore code factories s' = .ok l) :
      Session code json k (.resume factories text) l

/-- The sessions on a kernel. -/
abbrev Sessions (code : AgentCode σ) (json : JsonModule) :
    Kernel σ → List (SessionEvent σ) → Kernel σ → Prop :=
  Runs (Session code json)

end Kernel

/-! ## Twins of twins -/

theorem Agent.StoodForBy.trans {a b c : Agent σ} (h : a.StoodForBy b) (h' : b.StoodForBy c) :
    a.StoodForBy c := by
  rcases h' with rfl | ⟨hfin, hname, hstate, hparent, hrestarts⟩
  · exact h
  · refine .inr ⟨by rw [← h.isAlive_eq, hfin], hname.trans h.name_eq, hstate.trans h.state_eq,
      hparent.trans h.parent_eq, hrestarts.trans h.restarts_eq⟩

theorem Agent.StoodForBy.trans_list {as bs cs : List (Agent σ)}
    (h : List.Forall₂ Agent.StoodForBy as bs) (h' : List.Forall₂ Agent.StoodForBy bs cs) :
    List.Forall₂ Agent.StoodForBy as cs := by
  induction h generalizing cs with
  | nil => exact h'
  | cons hab _ ih =>
    cases h' with
    | cons hbc hrest => exact .cons (hab.trans hbc) (ih hrest)

namespace Kernel

variable {code : AgentCode σ} {json : JsonModule} {k l m k' l' : Kernel σ}

theorem Twin.trans (h : Twin k l) (h' : Twin l m) : Twin k m where
  tick := h'.tick.trans h.tick
  stopReason := h'.stopReason.trans h.stopReason
  agents := h'.agents.trans h.agents
  objects := Agent.StoodForBy.trans_list h.objects h'.objects
  used := by simp
  bus := {
    mem_keys := fun x => (h'.bus.mem_keys x).trans (h.bus.mem_keys x)
    box := fun x hx => (h'.bus.box x hx).trans (h.bus.box x hx) }

/-- The agent that stands for a registered one. -/
theorem Twin.agent? (h : Twin k l) {x : String} {b : Agent σ} (hb : l.agent? x = some b) :
    ∃ a, k.agent? x = some a ∧ a.StoodForBy b := by
  obtain ⟨ref, href, hobj⟩ := agent?_eq_some_iff.mp hb
  rcases h.object ref with ⟨-, hnone⟩ | ⟨a, b', ha, hb', hab⟩
  · rw [hobj] at hnone
    cases hnone
  · rw [hobj] at hb'
    cases hb'
    exact ⟨a, agent?_eq_some_iff.mpr ⟨ref, h.agents ▸ href, ha⟩, hab⟩

theorem Twin.isLive (h : Twin k l) (x : String) : l.isLive x = k.isLive x := by
  have hmap := h.agent?_isAlive x
  cases hk : k.agent? x <;> cases hl : l.agent? x <;> simp_all [Kernel.isLive]

/-- What stands for a kernel between two ticks is between two ticks. -/
theorem Twin.rested (h : Twin k l) (hk : k.Rested) : l.Rested where
  sound := by
    refine ⟨fun x ref href => ?_, fun x => ?_, fun x b hb => ?_⟩
    · obtain ⟨a, ha, hname⟩ := hk.sound.wf x ref (h.agents ▸ href)
      rcases h.object ref with ⟨hnone, -⟩ | ⟨a', b, ha', hb, hab⟩
      · rw [ha] at hnone
        cases hnone
      · rw [ha] at ha'
        cases ha'
        exact ⟨b, hb, hab.name_eq.trans hname⟩
    · rw [h.bus.mem_keys, hk.sound.mail, h.isLive]
    · obtain ⟨a, ha, hab⟩ := h.agent? hb
      rw [hab.state_eq]
      exact hk.sound.idle x a ha
  enrolled := by
    have hnames : l.objects.map Agent.name = k.objects.map Agent.name :=
      Agent.StoodForBy.map_eq (fun _ _ hab => hab.name_eq) h.objects
    rw [Enrolled, h.agents, hnames]
    exact hk.enrolled
  stopReason := h.stopReason.trans hk.stopReason

/-! ## The stop reason aside -/

/-- The kernel before its first `run`. -/
def unstopped (k : Kernel σ) : Kernel σ := { k with stopReason := none }

/-- `l` is a twin of `k` but for the stop reason, which no snapshot keeps, and both
are between two ticks. -/
structure Alike (k l : Kernel σ) : Prop where
  rested : k.unstopped.Rested
  twin : Twin k.unstopped l.unstopped

theorem Alike.restedRight (h : Alike k l) : l.unstopped.Rested := h.twin.rested h.rested

theorem Alike.init : Alike ({} : Kernel σ) {} where
  rested := .init
  twin := ⟨rfl, rfl, rfl, .nil, by simp, .of_box fun _ => rfl⟩

theorem register_unstopped (k : Kernel σ) (a : FreshAgent σ) (p : Option String) :
    k.unstopped.register a p = (k.register a p).map unstopped := by
  unfold register registerObject
  show (if k.agents.contains _ then _ else _) = _
  split <;> rfl

theorem busPost_unstopped (k : Kernel σ) (s r : String) (p : Value) (m : Metadata) :
    k.unstopped.busPost s r p m = (k.busPost s r p m).map unstopped := by
  unfold busPost
  show (k.bus.post s r p m).map _ = _
  cases k.bus.post s r p m <;> rfl

theorem run_unstopped {n : Int} (hn : 0 ≤ n) (k : Kernel σ) :
    k.unstopped.run code n = k.run code n := by
  unfold Kernel.run
  rw [if_neg (by omega), if_neg (by omega)]
  rfl

/-! ## What a run keeps -/

theorem rested_unstopped (hsound : k.Sound) (henrolled : k.Enrolled) : k.unstopped.Rested :=
  ⟨⟨hsound.wf, hsound.mail, hsound.idle⟩, henrolled, rfl⟩

theorem rested_finishRun (h : k.unstopped.Rested) : k.finishRun.unstopped.Rested := by
  unfold finishRun
  split
  · exact h
  · split <;> exact h

theorem rested_runLoop (hcode : code.ContextOnly) {n : Nat} {reports : List TickReport}
    (hsound : k.Sound) (henrolled : k.Enrolled) (hrun : k.runLoop code n = (k', .ok reports)) :
    k'.unstopped.Rested := by
  have hk := rested_unstopped hsound henrolled
  induction n generalizing k reports with
  | zero =>
    cases hrun
    exact rested_finishRun hk
  | succ n ih =>
    unfold runLoop at hrun
    split at hrun
    · cases hrun
      exact hk
    · split at hrun
      · cases hrun
        exact hk
      · rcases hstep : k.step code with ⟨u, e | report⟩
        · rw [hstep] at hrun
          cases hrun
        · obtain ⟨sched, hallow, heq⟩ := step_eq_stepWith code k
          obtain ⟨hsound', henrolled', -⟩ :=
            henrolled.tick hsound hcode hallow (heq.trans hstep)
          rw [hstep] at hrun
          rcases hrest : u.runLoop code n with ⟨v, e | rest⟩
          · simp only [hrest] at hrun
            cases hrun
          · simp only [hrest] at hrun
            cases hrun
            exact ih hsound' henrolled' hrest (rested_unstopped hsound' henrolled')

theorem rested_run (hcode : code.ContextOnly) {n : Int} {reports : List TickReport}
    (h : k.unstopped.Rested) (hrun : k.run code n = (k', .ok reports)) : k'.unstopped.Rested := by
  unfold Kernel.run at hrun
  split at hrun
  · cases hrun
  · exact rested_runLoop hcode (k := { k with stopReason := some .maxTicks })
      ⟨h.sound.wf, h.sound.mail, h.sound.idle⟩ h.enrolled hrun

theorem nonneg_of_run {n : Int} {reports : List TickReport}
    (hrun : k.run code n = (k', .ok reports)) : 0 ≤ n := by
  by_contra hn
  rw [Kernel.run, if_pos (by omega)] at hrun
  cases hrun

/-! ## Each event -/

namespace Alike

/-- Calls that do the same to twins do the same to kernels that are alike. -/
theorem after (call : Kernel σ → Except Exc (Kernel σ)) (h : Alike k l)
    (hstop : ∀ k : Kernel σ, call k.unstopped = (call k).map unstopped)
    (hrested : ∀ {k k' : Kernel σ}, k.Rested → call k = .ok k' → k'.Rested)
    (htwins : (∃ e, call k.unstopped = .error e ∧ call l.unstopped = .error e)
      ∨ ∃ k' l', call k.unstopped = .ok k' ∧ call l.unstopped = .ok l' ∧ Twin k' l') :
    (l.after (call l)).2 = (k.after (call k)).2
      ∧ Alike (k.after (call k)).1 (l.after (call l)).1 := by
  rcases htwins with ⟨e, hk, hl⟩ | ⟨k', l', hk, hl, htwin⟩
  · rw [hstop] at hk hl
    cases hk' : call k with
    | ok => simp [hk', Except.map] at hk
    | error e' =>
      cases hl' : call l with
      | ok => simp [hl', Except.map] at hl
      | error e'' =>
        simp only [hk', hl', Except.map, Except.error.injEq] at hk hl
        subst hk hl
        exact ⟨rfl, h⟩
  · have hk'' := hrested h.rested hk
    rw [hstop] at hk hl
    cases hkc : call k with
    | error => simp [hkc, Except.map] at hk
    | ok u =>
      cases hlc : call l with
      | error => simp [hlc, Except.map] at hl
      | ok v =>
        simp only [hkc, hlc, Except.map, Except.ok.injEq] at hk hl
        subst hk hl
        exact ⟨rfl, hk'', htwin⟩

theorem register (h : Alike k l) (a : FreshAgent σ) (p : Option String) :
    (l.after (l.register a p)).2 = (k.after (k.register a p)).2
      ∧ Alike (k.after (k.register a p)).1 (l.after (l.register a p)).1 :=
  h.after (fun k => k.register a p) (register_unstopped · a p) (·.register ·)
    (h.twin.registerObject (a.linked p))

theorem post (h : Alike k l) (s r : String) (p : Value) (m : Metadata) :
    (l.after (l.busPost s r p m)).2 = (k.after (k.busPost s r p m)).2
      ∧ Alike (k.after (k.busPost s r p m)).1 (l.after (l.busPost s r p m)).1 := by
  refine h.after (fun k => k.busPost s r p m) (busPost_unstopped · s r p m) (·.busPost ·) ?_
  unfold busPost MessageBus.post
  rcases h.twin.bus.send { sender := s, recipient := r, payload := p, metadata := m } with
    ⟨e, hk, hl⟩ | ⟨b, b', hk, hl, hsame⟩
  · rw [hk, hl]
    exact .inl ⟨e, rfl, rfl⟩
  · rw [hk, hl]
    exact .inr ⟨_, _, rfl, rfl, h.twin.withBus hsame⟩

theorem run (hcode : code.ContextOnly) {n : Int} {reports : List TickReport} (h : Alike k l)
    (hrun : l.run code n = (l', .ok reports)) :
    ∃ k', k.run code n = (k', .ok reports) ∧ k'.stopReason = l'.stopReason ∧ Alike k' l' := by
  have hn := nonneg_of_run hrun
  obtain ⟨hreports, htwin⟩ := h.twin.run code n
  rw [run_unstopped hn, run_unstopped hn, hrun] at hreports htwin
  generalize hres : k.run code n = res at hreports htwin
  obtain ⟨k', out⟩ := res
  obtain rfl : Except.ok reports = out := hreports
  refine ⟨k', rfl, htwin.stopReason.symm, ?_, Twin.stopped htwin none⟩
  exact rested_run hcode h.rested hres

theorem resume (h : Alike k l) {factories : Dict String (AgentFactory σ)} {s : Snapshot}
    (hsnapshot : l.snapshot code = .ok s)
    (hbuild : ∀ x a, l.agent? x = some a → Rebuilds code factories a)
    (hrestore : Kernel.restore code factories s = .ok l') : Alike k l' := by
  obtain ⟨s', m, hsnapshot', hrestore', htwin⟩ := h.restedRight.restore hbuild
  have hs : Except.ok s = Except.ok s' := hsnapshot.symm.trans hsnapshot'
  cases hs
  obtain rfl : l' = m := Except.ok.inj (hrestore.symm.trans hrestore')
  exact ⟨h.rested, h.twin.trans (htwin.stopped none)⟩

/-- Where the factories rebuild the agents, a kernel can be restored. -/
theorem exists_restore (h : Alike k l) {factories : Dict String (AgentFactory σ)}
    (hbuild : ∀ x a, l.agent? x = some a → Rebuilds code factories a) :
    ∃ s l', l.snapshot code = .ok s ∧ s.version = SNAPSHOT_VERSION
      ∧ Kernel.restore code factories s = .ok l' := by
  obtain ⟨s, m, hsnapshot, hrestore, -⟩ := h.restedRight.restore hbuild
  have hversion := h.restedRight.snapshot code
  rw [hsnapshot] at hversion
  cases hversion
  exact ⟨_, m, hsnapshot, rfl, hrestore⟩

end Alike

end Kernel

/-! ## Through the text -/

namespace Snapshot

variable {json : JsonModule} {s s' : Snapshot} {text : String}

/-- A snapshot comes back from its text. -/
theorem exists_text (hjson : json.RoundTrips) (hversion : s.version = SNAPSHOT_VERSION)
    (hplain : s.IsJson) : ∃ text, s.toJson json = .ok text ∧ fromJson json text = .ok s := by
  obtain ⟨text, hdumps, hloads⟩ := hjson s.toDict (isJson_toDict hplain)
  refine ⟨text, hdumps, ?_⟩
  rw [fromJson, hloads]
  exact fromDict_toDict hversion

theorem eq_of_text (hjson : json.RoundTrips) (hversion : s.version = SNAPSHOT_VERSION)
    (hplain : s.IsJson) (hsave : s.toJson json = .ok text)
    (hload : fromJson json text = .ok s') : s' = s := by
  obtain ⟨text', hsave', hload'⟩ := exists_text hjson hversion hplain
  rw [hsave, Except.ok.injEq] at hsave'
  subst hsave'
  rw [hload, Except.ok.injEq] at hload'
  exact hload'

end Snapshot

namespace Kernel

variable {code : AgentCode σ} {json : JsonModule} {k l l' : Kernel σ}

theorem version_of_snapshot {s : Snapshot} (h : k.snapshot code = .ok s) :
    s.version = SNAPSHOT_VERSION := by
  unfold Kernel.snapshot at h
  split at h
  · cases h
  · cases h
    rfl

/-- **One event.** What a kernel does that may have been restored, the kernel that
never was does alike; a restart it does not notice. -/
theorem Alike.step (hcode : code.ContextOnly) (hjson : json.RoundTrips) (h : Alike k l)
    {e : SessionEvent σ} (hnext : Session code json l e l') :
    ∃ k', Sessions code json k (if e.isResume then [] else [e]) k' ∧ Alike k' l' := by
  cases hnext with
  | register a p =>
    obtain ⟨hanswer, halike⟩ := h.register a p
    refine ⟨_, ?_, halike⟩
    rw [hanswer]
    exact .cons (.register k a p) .nil
  | post s r p m =>
    obtain ⟨hanswer, halike⟩ := h.post s r p m
    refine ⟨_, ?_, halike⟩
    rw [hanswer]
    exact .cons (.post k s r p m) .nil
  | run hrun =>
    obtain ⟨k', hrun', hreason, halike⟩ := h.run hcode hrun
    refine ⟨k', ?_, halike⟩
    rw [← hreason]
    exact .cons (.run hrun') .nil
  | resume hsnapshot hplain hbuild hsave hload hrestore =>
    obtain rfl := Snapshot.eq_of_text hjson (version_of_snapshot hsnapshot) hplain hsave hload
    exact ⟨k, .nil, h.resume hsnapshot hbuild hrestore⟩

theorem exists_alike (hcode : code.ContextOnly) (hjson : json.RoundTrips)
    {es : List (SessionEvent σ)} (h : Sessions code json {} es l) :
    ∃ k, Sessions code json {} (es.filter fun e => !e.isResume) k ∧ Alike k l := by
  induction h with
  | nil => exact ⟨{}, .nil, .init⟩
  | @snoc es e l l' hrun hnext ih =>
    obtain ⟨k, hk, halike⟩ := ih
    obtain ⟨k', hk', halike'⟩ := halike.step hcode hjson hnext
    refine ⟨k', ?_, halike'⟩
    rw [List.filter_append]
    refine hk.append ?_
    cases hresume : e.isResume <;> simpa [hresume] using hk'

/-- **A run may be spread over several processes.** A session in which the kernel
is saved to JSON text and restored from it, at any boundaries and any number of
times, is the session without the restarts: the same calls give the same answers,
reports and stop reasons, and it ends at the same tick with the same agents in
the same order, the live ones being the same objects, and with the same mail.
Where the factories rebuild the agents and the data is JSON, a restart is always
possible. -/
theorem session_resumes (hcode : code.ContextOnly) (hjson : json.RoundTrips)
    {es : List (SessionEvent σ)} (h : Sessions code json {} es l) :
    (∃ k, Sessions code json {} (es.filter fun e => !e.isResume) k ∧ l.tick = k.tick
      ∧ (l.roster.map fun a => (a.name, a.state, a.parent, a.restarts))
        = (k.roster.map fun a => (a.name, a.state, a.parent, a.restarts))
      ∧ (∀ x a, k.agent? x = some a → a.isAlive = true → l.agent? x = some a)
      ∧ ∀ x, l.bus.mailboxes.get? x = k.bus.mailboxes.get? x)
    ∧ ∀ factories, (∀ x a, l.agent? x = some a → Rebuilds code factories a) →
      (∀ s, l.snapshot code = .ok s → s.IsJson) →
      ∃ text l', Session code json l (.resume factories text) l' := by
  obtain ⟨k, hk, halike⟩ := exists_alike hcode hjson h
  refine ⟨⟨k, hk, halike.twin.tick, ?_, fun x a ha halive => ?_, fun x => ?_⟩,
    fun factories hbuild hplain => ?_⟩
  · refine halike.twin.roster fun a b hab => ?_
    rw [hab.name_eq, hab.state_eq, hab.parent_eq, hab.restarts_eq]
  · obtain ⟨ref, href, hobj⟩ := agent?_eq_some_iff.mp ha
    refine agent?_eq_some_iff.mpr ⟨ref, (congrArg (·.get? x) halike.twin.agents).trans href, ?_⟩
    rcases halike.twin.object ref with ⟨hnone, -⟩ | ⟨a', b, ha', hb, hab⟩
    · exact absurd (hobj.symm.trans hnone) (by simp)
    · obtain rfl : a = a' := Option.some.inj (hobj.symm.trans ha')
      rw [← hab.eq_of_isAlive halive]
      exact hb
  · exact halike.twin.bus.box x id
  · obtain ⟨s, l', hsnapshot, hversion, hrestore⟩ := halike.exists_restore hbuild
    obtain ⟨text, hsave, hload⟩ := Snapshot.exists_text hjson hversion (hplain s hsnapshot)
    exact ⟨text, l', .resume hsnapshot (hplain s hsnapshot) hbuild hsave hload hrestore⟩

end Kernel

/-! ## A counter in two processes -/

/-- A counter with mail. -/
def posted : Kernel Int :=
  let k := (Kernel.after {} (Kernel.register {} (counter "a" Script.a_ne) none)).1
  (k.after (k.busPost "ext" "a" (.int 1) ∅)).1

/-- It has counted to one and waits. -/
def counted : Kernel Int := (posted.run tally 1).1

theorem counted_runs : (posted.run tally 1).2.isOk = true := by decide

theorem counted_session : ∃ es, Kernel.Sessions tally integerJson {} es counted := by
  have hposted : Kernel.Sessions tally integerJson {} _ posted :=
    (Runs.nil.snoc (.register {} (counter "a" Script.a_ne) none)).snoc
      (.post _ "ext" "a" (.int 1) ∅)
  rcases hrun : posted.run tally 1 with ⟨k, e | reports⟩
  · have hok := counted_runs
    rw [hrun] at hok
    cases hok
  · obtain rfl : counted = k := by rw [counted, hrun]
    exact ⟨_, hposted.snoc (.run hrun)⟩

theorem counted_rebuilt (x : String) (a : Agent Int) (ha : counted.agent? x = some a) :
    Rebuilds tally counterFactory a := by
  obtain ⟨ref, -, hobj⟩ := Kernel.agent?_eq_some_iff.mp ha
  have hall : ∀ a ∈ counted.objects,
      a.body = .user 1 ∧ a.restartPolicy = .never ∧ a.maxRestarts = 3 := by decide
  obtain ⟨hbody, hpolicy, hmax⟩ := hall a (List.mem_of_getElem? hobj)
  exact counterFactory_rebuilds hbody hpolicy hmax

def countedSnapshot : Snapshot where
  tick := 1
  agents :=
    [{ name := "a", kind := "Tally", state := "waiting", data := Dict.ofList [("count", .int 1)] }]

theorem snapshot_counted : counted.snapshot tally = .ok countedSnapshot := by rfl

theorem counted_isJson (s : Snapshot) (h : counted.snapshot tally = .ok s) : s.IsJson := by
  obtain rfl : countedSnapshot = s := Except.ok.inj (snapshot_counted.symm.trans h)
  exact ⟨by decide, by decide, by decide⟩

/-- It is saved, and counts on in another process. -/
theorem session_resumes_counted : ∃ es l, (es.any SessionEvent.isResume) = true
    ∧ Kernel.Sessions tally integerJson {} es l
    ∧ ∃ k, Kernel.Sessions tally integerJson {} (es.filter fun e => !e.isResume) k
      ∧ l.tick = k.tick := by
  obtain ⟨es, hrun⟩ := counted_session
  obtain ⟨text, l, hresume⟩ :=
    (Kernel.session_resumes tally_contextOnly integerJson_roundTrips hrun).2
      counterFactory counted_rebuilt counted_isJson
  have hlong := (hrun.snoc hresume).snoc (.post l "ext" "a" (.int 2) ∅)
  obtain ⟨k, hk, htick, -⟩ :=
    (Kernel.session_resumes tally_contextOnly integerJson_roundTrips hlong).1
  exact ⟨_, _, by simp [SessionEvent.isResume], hlong, k, hk, htick⟩

end TitoOS
