import Mathlib.Data.List.Dedup
import TitoOS.Isolation
import TitoOS.Kernel.Roster
import TitoOS.Kernel.Twin
import TitoOS.SnapshotGuard

/-!
# Restoring continues the run

A kernel between two ticks is restored from its snapshot as a twin of itself
(`restore_snapshot`), and twins run alike. The factories have to rebuild the
live agents; of a finished agent only the record matters.
-/

namespace TitoOS

variable {σ : Type}

/-- The factories rebuild `a`: under its kind there is one that builds a bare
agent of its name, policy and budget, to which `load_state` gives back what
`save_state` saved. A finished agent needs no factory; one that is there only
has to build an agent of that name and load without raising. -/
def Rebuilds (code : AgentCode σ) (factories : Dict String (AgentFactory σ)) (a : Agent σ) :
    Prop :=
  match factories.get? (code.kindOf a) with
  | none => a.isAlive = false
  | some factory => ∃ bare body, factory a.name = .ok bare ∧ bare.name = a.name
      ∧ code.loadOf bare (code.saveOf a) = .ok body
      ∧ (a.isAlive = true → body = a.body ∧ bare.restartPolicy = a.restartPolicy
        ∧ bare.maxRestarts = a.maxRestarts)

namespace Kernel

variable {code : AgentCode σ} {factories : Dict String (AgentFactory σ)}

/-! ## The snapshot -/

theorem Rested.snapshot {k : Kernel σ} (h : k.Rested) (code : AgentCode σ) :
    k.snapshot code = .ok {
      tick := k.tick
      agents := k.objects.map (record code)
      mailboxes := k.bus.mailboxes.filter fun _ messages => !messages.isEmpty } := by
  have hnone : k.runningNames = [] := by
    by_contra hne
    obtain ⟨x, hx⟩ := List.exists_mem_of_ne_nil _ hne
    obtain ⟨a, ha, hrun⟩ := (mem_runningNames h.sound.wf).mp hx
    exact h.sound.idle x a ha hrun
  simp [Kernel.snapshot, hnone, h.enrolled.roster_eq, MessageBus.dump]

/-! ## Rebuilding the agents -/

/-- `bare` once `restore` has given it the recorded data of `a`. -/
def rebuilt (a bare : Agent σ) (body : Body σ) : Agent σ :=
  { bare with parent := a.parent, restarts := a.restarts, body, state := a.state }

theorem stoodForBy_rebuilt {a bare : Agent σ} {body : Body σ} (hname : bare.name = a.name)
    (hlive : a.isAlive = true → body = a.body ∧ bare.restartPolicy = a.restartPolicy
      ∧ bare.maxRestarts = a.maxRestarts) : a.StoodForBy (rebuilt a bare body) := by
  by_cases halive : a.isAlive = true
  · obtain ⟨hbody, hpolicy, hmax⟩ := hlive halive
    left
    cases a
    cases bare
    simp_all [rebuilt]
  · exact .inr ⟨by simpa using halive, hname, rfl, rfl, rfl⟩

theorem modify_concat (l : List (Agent σ)) (a : Agent σ) (f : Agent σ → Agent σ) :
    (l ++ [a]).modify l.length f = l ++ [f a] := by
  induction l with
  | nil => rfl
  | cons b rest ih => simpa using ih

/-- One record of a new name adds the agent built for it. -/
theorem restoreAgent_ok {a bare : Agent σ} {body : Body σ} {m : Kernel σ}
    (hbuild : buildAgent factories (record code a) = .ok bare) (hname : bare.name = a.name)
    (hload : code.loadOf bare (code.saveOf a) = .ok body) (hnew : bare.name ∉ m.agents.keys) :
    restoreAgent code factories m (record code a) = .ok { m with
      objects := m.objects ++ [rebuilt a bare body]
      agents := m.agents.set bare.name m.objects.length
      bus := m.bus.register bare.name } := by
  have hload' : code.loadOf { bare with parent := a.parent, restarts := a.restarts }
      (code.saveOf a) = .ok body := hload
  have hreg : m.registerObject { bare with parent := a.parent, restarts := a.restarts, body }
      = .ok { m with
        objects := m.objects ++ [{ bare with parent := a.parent, restarts := a.restarts, body }]
        agents := m.agents.set bare.name m.objects.length
        bus := m.bus.register bare.name } :=
    registerObject_eq_ok_iff.mpr ⟨hnew, rfl⟩
  have hsame : ¬ bare.name ≠ a.name := not_not_intro hname
  unfold restoreAgent
  rw [hbuild]
  simp only [bind, Except.bind, record, if_neg hsame, hload', hreg, AgentState.ofValue?_value]
  simp [setState, modifyAgent, modify_concat, rebuilt]

theorem buildAgent_of_rebuilds {a : Agent σ} (h : Rebuilds code factories a) :
    ∃ bare body, buildAgent factories (record code a) = .ok bare ∧ bare.name = a.name
      ∧ code.loadOf bare (code.saveOf a) = .ok body
      ∧ (a.isAlive = true → body = a.body ∧ bare.restartPolicy = a.restartPolicy
        ∧ bare.maxRestarts = a.maxRestarts) := by
  unfold Rebuilds at h
  unfold buildAgent
  simp only [record]
  cases hfactory : factories.get? (code.kindOf a) with
  | none =>
    rw [hfactory] at h
    refine ⟨{ name := a.name, name_ne := a.name_ne, body := .finished (code.kindOf a) ∅ },
      .finished (code.kindOf a) (code.saveOf a), ?_, rfl, rfl, fun halive => ?_⟩
    · simp [finishedAgent, a.name_ne]
    · simp [h] at halive
  | some factory =>
    rw [hfactory] at h
    exact h

/-- The records of agents with distinct new names add the agents built for them;
what relates each agent to the one built for it, relates them all. -/
theorem restoreAll (code : AgentCode σ) {R : Agent σ → Agent σ → Prop} {objs : List (Agent σ)}
    (hbuild : ∀ a ∈ objs, ∃ bare body, buildAgent factories (record code a) = .ok bare
      ∧ bare.name = a.name ∧ code.loadOf bare (code.saveOf a) = .ok body
      ∧ R a (rebuilt a bare body))
    {m : Kernel σ} (henrolled : m.Enrolled)
    (hnodup : (m.objects.map Agent.name ++ objs.map Agent.name).Nodup) :
    ∃ m' built, (objs.map (record code)).foldlM (restoreAgent code factories) m = .ok m'
      ∧ m'.objects = m.objects ++ built ∧ List.Forall₂ R objs built
      ∧ m'.Enrolled ∧ m'.tick = m.tick ∧ m'.stopReason = m.stopReason := by
  induction objs generalizing m with
  | nil => exact ⟨m, [], rfl, by simp, .nil, henrolled, rfl, rfl⟩
  | cons a rest ih =>
    obtain ⟨bare, body, hbare, hname, hload, hrel⟩ := hbuild a (by simp)
    have hnew : bare.name ∉ m.agents.keys := by
      rw [henrolled.keys, hname]
      intro hin
      exact (List.nodup_append.mp hnodup).2.2 _ hin _ (by simp) rfl
    have hone := restoreAgent_ok hbare hname hload hnew
    have henrolled' := henrolled.enrol (a := rebuilt a bare body) hnew (m.bus.register bare.name)
    obtain ⟨m', built, hall, hobjects, hrels, henr, htick, hstop⟩ := ih
      (fun b hb => hbuild b (by simp [hb])) henrolled' (by
        simpa [rebuilt, hname] using hnodup)
    refine ⟨m', rebuilt a bare body :: built, ?_, by simpa using hobjects,
      .cons hrel hrels, henr, htick, hstop⟩
    rw [List.map_cons, List.foldlM_cons, hone]
    exact hall

/-! ## The mailboxes -/

/-- The end of `restore` changes mailboxes only: it opens one for each live
agent, when no finished agent has mail. -/
theorem reopen_all {objs : List (Agent σ)} (hnodup : (objs.map Agent.name).Nodup) {m : Kernel σ}
    (hfinished : ∀ a ∈ objs, a.isAlive = false → m.bus.mailboxes.get? a.name = none) :
    ∃ bus, objs.foldl reopenFor m = { m with bus } ∧ ∀ x, bus.mailboxes.get? x
      = if ∃ a ∈ objs, a.isAlive = true ∧ a.name = x
        then some ((m.bus.mailboxes.get? x).getD []) else m.bus.mailboxes.get? x := by
  induction objs generalizing m with
  | nil => exact ⟨m.bus, rfl, by simp⟩
  | cons a rest ih =>
    obtain ⟨hnot, hrest⟩ := List.nodup_cons.mp hnodup
    have hothers : ∀ b ∈ rest, b.name ≠ a.name := by
      rintro b hb heq
      exact hnot (heq ▸ List.mem_map_of_mem hb)
    cases halive : a.isAlive with
    | true =>
      have hstep : reopenFor m a = { m with bus := m.bus.register a.name } := by
        simp [reopenFor, halive]
      obtain ⟨bus, hfold, hbox⟩ := ih hrest (m := { m with bus := m.bus.register a.name }) (by
        intro b hb hdead
        simpa [hothers b hb] using hfinished b (by simp [hb]) hdead)
      refine ⟨bus, by rw [List.foldl_cons, hstep, hfold], fun x => ?_⟩
      rw [hbox, MessageBus.get?_register]
      by_cases hx : x = a.name
      · simp [hx, halive]
      · simp [hx, Ne.symm hx]
    | false =>
      have hnone := hfinished a (by simp) halive
      -- nothing is pending for a finished agent, so there is nothing to drop
      have hstep : reopenFor m a = { m with bus := m.bus.unregister a.name } := by
        simp [reopenFor, halive, MessageBus.pending, hnone]
      obtain ⟨bus, hfold, hbox⟩ := ih hrest (m := { m with bus := m.bus.unregister a.name }) (by
        intro b hb hdead
        simpa [hothers b hb] using hfinished b (by simp [hb]) hdead)
      refine ⟨bus, by rw [List.foldl_cons, hstep, hfold], fun x => ?_⟩
      rw [hbox, MessageBus.get?_unregister]
      by_cases hx : x = a.name
      · subst hx
        simp [halive, hnone]
      · simp [hx, halive]

/-! ## The restored kernel -/

theorem find?_invalid_record (code : AgentCode σ) (objs : List (Agent σ)) :
    ((objs.map (record code)).find? fun r => (AgentState.ofValue? r.state).isNone) = none := by
  rw [List.find?_eq_none]
  intro r hr
  obtain ⟨a, -, rfl⟩ := List.mem_map.mp hr
  simp [record]

/-- No factory is missing when every live agent has one. -/
theorem missing_eq_nil (code : AgentCode σ) (factories : Dict String (AgentFactory σ))
    {s : Snapshot} {objs : List (Agent σ)} (hs : s.agents = objs.map (record code))
    (hcovered : ∀ a ∈ objs, a.isAlive = true → factories.contains (code.kindOf a) = true) :
    ((sorted (liveKinds s).dedup).filter fun kind => !factories.contains kind) = [] := by
  rw [List.filter_eq_nil_iff]
  intro kind hkind
  have hmem : kind ∈ liveKinds s :=
    List.mem_dedup.mp ((List.perm_insertionSort _ _).mem_iff.mp hkind)
  simp only [liveKinds, hs, List.mem_map, List.mem_filter] at hmem
  obtain ⟨r, ⟨⟨a, ha, rfl⟩, halive⟩, rfl⟩ := hmem
  have halive' : a.isAlive = true := by
    simpa [record, AgentState.isFinished, Agent.isAlive] using halive
  show ¬ (!factories.contains (code.kindOf a)) = true
  simp [hcovered a ha halive']

theorem contains_of_rebuilds {a : Agent σ} (h : Rebuilds code factories a)
    (halive : a.isAlive = true) : factories.contains (code.kindOf a) = true := by
  unfold Rebuilds at h
  cases hfactory : factories.get? (code.kindOf a) with
  | none =>
    rw [hfactory] at h
    rw [halive] at h
    cases h
  | some factory => simp [Dict.contains, hfactory]

/-- **Restoring a snapshot gives a twin** of the kernel it was taken from. -/
theorem Rested.restore {k : Kernel σ} (h : k.Rested)
    (hbuild : ∀ x a, k.agent? x = some a → Rebuilds code factories a) :
    ∃ s l, k.snapshot code = .ok s ∧ Kernel.restore code factories s = .ok l ∧ Twin k l := by
  have hbuild' : ∀ a ∈ k.objects, Rebuilds code factories a :=
    fun a ha => hbuild a.name a (h.enrolled.agent?_of_mem ha)
  have hrebuilds : ∀ a ∈ k.objects, ∃ bare body, buildAgent factories (record code a) = .ok bare
      ∧ bare.name = a.name ∧ code.loadOf bare (code.saveOf a) = .ok body
      ∧ a.StoodForBy (rebuilt a bare body) := by
    intro a ha
    obtain ⟨bare, body, hbare, hname, hload, hlive⟩ := buildAgent_of_rebuilds (hbuild' a ha)
    exact ⟨bare, body, hbare, hname, hload, stoodForBy_rebuilt hname hlive⟩
  obtain ⟨m, built, hall, hobjects, hstand, henrolled, htick, hstop⟩ :=
    restoreAll code (m := { ({} : Kernel σ) with tick := k.tick }) hrebuilds rfl
      (by simpa using h.enrolled.nodup)
  obtain rfl : m.objects = built := by simpa using hobjects
  have hnames : m.objects.map Agent.name = k.objects.map Agent.name :=
    Agent.StoodForBy.map_eq (fun _ _ hab => hab.name_eq) hstand
  have hlive : ∀ x, (∃ b ∈ m.objects, b.isAlive = true ∧ b.name = x) ↔ k.isLive x = true := by
    intro x
    have hpairs := Agent.StoodForBy.map_eq (f := fun a : Agent σ => (a.isAlive, a.name))
      (fun _ _ hab => by rw [hab.isAlive_eq, hab.name_eq]) hstand
    rw [h.enrolled.isLive_iff]
    have hmem : ∀ objs : List (Agent σ), (∃ b ∈ objs, b.isAlive = true ∧ b.name = x)
        ↔ (true, x) ∈ objs.map fun a : Agent σ => (a.isAlive, a.name) := by
      simp
    rw [hmem, hmem, hpairs]
  have hmail : ∀ x, k.isLive x ≠ true → k.bus.mailboxes.get? x = none := by
    intro x hx
    rw [Dict.get?_eq_none_iff, h.sound.mail]
    exact hx
  generalize hload : (k.bus.mailboxes.filter fun _ messages => !messages.isEmpty) = loaded
  have hloaded : ∀ x, loaded.get? x
      = (k.bus.mailboxes.get? x).filter fun messages => !messages.isEmpty :=
    fun x => hload ▸ Dict.get?_filter ..
  have hfinished : ∀ b ∈ m.objects, b.isAlive = false → loaded.get? b.name = none := by
    intro b hb hdead
    have hnot : k.isLive b.name ≠ true := by
      intro hx
      obtain ⟨c, hc, halive, hname⟩ := (hlive _).mpr hx
      rw [List.inj_on_of_nodup_map henrolled.nodup hc hb hname, hdead] at halive
      cases halive
    rw [hloaded, hmail _ hnot]
    rfl
  obtain ⟨bus, hreopen, hbox⟩ := reopen_all henrolled.nodup
    (m := { m with bus := m.bus.load loaded }) hfinished
  refine ⟨_, { m with bus }, h.snapshot code, ?_, ?_⟩
  · have hroster : Kernel.roster { m with bus := m.bus.load loaded } = m.objects :=
      Enrolled.roster_eq (k := { m with bus := m.bus.load loaded }) henrolled
    have hmissing := missing_eq_nil code factories
      (s := { tick := k.tick, agents := k.objects.map (record code), mailboxes := loaded }) rfl
      fun a ha => contains_of_rebuilds (hbuild' a ha)
    rw [hload]
    unfold Kernel.restore
    simp only [find?_invalid_record, hmissing, List.isEmpty_nil, Bool.not_true, Bool.false_eq_true,
      if_false, hall, bind, Except.bind, reopen, hroster, hreopen]
  · constructor
    case tick => exact htick
    case stopReason => exact hstop.trans h.stopReason.symm
    case agents => exact Dict.ext (by rw [henrolled, h.enrolled, hnames])
    case objects => exact hstand
    case used => simp
    case bus =>
      refine .of_box fun x => ?_
      show bus.mailboxes.get? x = _
      rw [hbox]
      simp only [hlive, MessageBus.load, hloaded]
      split
      · -- a live agent has its mailbox, loaded or opened empty
        rename_i hx
        obtain ⟨mailbox, hmailbox⟩ := Dict.mem_keys_iff.mp ((h.sound.mail x).mpr hx)
        cases mailbox <;> simp [hmailbox, Option.filter]
      · simp [hmail x ‹_›]

end Kernel

/-- **Restoring continues the same run.** The snapshot of a kernel between two
ticks is restored, and whatever `run` then does on the original, it does on the
restored kernel: the same reports or exception and the same stop reason, ending
at the same tick with the same agents in the same order, in the same states,
with the same parents and restart counters, and with the same mailboxes. -/
theorem restored_run_continues {code : AgentCode σ} (hcode : code.ContextOnly)
    {factories : Dict String (AgentFactory σ)} {acts : List (Act σ)} {k : Kernel σ}
    (h : Kernel.Reached code acts k)
    (hbuild : ∀ x a, k.agent? x = some a → Rebuilds code factories a) :
    ∃ s l, k.snapshot code = .ok s ∧ Kernel.restore code factories s = .ok l
      ∧ ∀ n : Int, (l.run code n).2 = (k.run code n).2
        ∧ (l.run code n).1.stopReason = (k.run code n).1.stopReason
        ∧ (l.run code n).1.tick = (k.run code n).1.tick
        ∧ ((l.run code n).1.roster.map fun a => (a.name, a.state, a.parent, a.restarts))
          = ((k.run code n).1.roster.map fun a => (a.name, a.state, a.parent, a.restarts))
        ∧ ∀ x, (l.run code n).1.bus.mailboxes.get? x = (k.run code n).1.bus.mailboxes.get? x := by
  obtain ⟨s, l, hsnapshot, hrestore, htwins⟩ := (h.rested hcode).restore hbuild
  refine ⟨s, l, hsnapshot, hrestore, fun n => ?_⟩
  obtain ⟨hreports, hends⟩ := htwins.run code n
  refine ⟨hreports, hends.stopReason, hends.tick, hends.roster fun a b hab => ?_,
    fun x => hends.bus.box x id⟩
  rw [hab.name_eq, hab.state_eq, hab.parent_eq, hab.restarts_eq]

/-! ## A run that is restored -/

/-- Agents that count the messages they have received and then wait; one that
has counted three exits. -/
def tally : AgentCode Int where
  step n _ _ inbox :=
    .store (n + inbox.length) (if n + inbox.length < 3 then .wait .ret else .exit .ret)
  onRestart n _ := (n, none)
  isAsync _ := false
  kind _ := "Tally"
  saveState n := Dict.ofList [("count", .int n)]
  loadState _ data := match data.get? "count" with
    | some (.int n) => .ok n
    | _ => .error (.raised "KeyError" "'count'")

theorem tally_contextOnly : tally.ContextOnly := by
  intro n a tick inbox
  refine ⟨trivial, ?_⟩
  split
  · exact ⟨trivial, trivial⟩
  · exact ⟨trivial, trivial⟩

/-- A counter that starts from zero. -/
def counter (name : String) (name_ne : name ≠ "") : FreshAgent Int where
  name
  name_ne
  body := .user 0
  fresh_state := rfl
  fresh_restarts := FreshAgent.default_restarts

/-- The factory of counters. -/
def counterFactory : Dict String (AgentFactory Int) :=
  Dict.ofList [("Tally", fun name =>
    if h : name = "" then .error .emptyName else .ok (counter name h).toAgent)]

/-- The factory rebuilds every agent that still is a counter. -/
theorem counterFactory_rebuilds {a : Agent Int} {n : Int} (hbody : a.body = .user n)
    (hpolicy : a.restartPolicy = .never) (hmax : a.maxRestarts = 3) :
    Rebuilds tally counterFactory a := by
  have hfactory : counterFactory.get? (tally.kindOf a)
      = some fun name => if h : name = "" then .error .emptyName
          else .ok (counter name h).toAgent := by
    simp [AgentCode.kindOf, hbody, tally, counterFactory, Dict.ofList]
  rw [Rebuilds, hfactory]
  refine ⟨(counter a.name a.name_ne).toAgent, .user n, ?_, rfl, ?_, fun _ => ⟨hbody.symm, ?_⟩⟩
  · simp [a.name_ne]
  · simp [AgentCode.loadOf, AgentCode.saveOf, hbody, counter, tally, Dict.ofList, Except.map]
  · exact ⟨hpolicy.symm, hmax.symm⟩

/-- One counter reaches three and exits; the other waits, with mail. -/
def tallyOps : List (Op Int) :=
  [.register (counter "a" Script.a_ne) none, .register (counter "b" (by decide)) none,
    .post "ext" "a" (.int 1), .post "ext" "a" (.int 2), .tick .serial [0, 0, 0, 0, 1, 1, 1, 1],
    .post "ext" "*" (.int 3), .tick .serial [0, 0, 0, 0, 1, 1, 1, 1], .post "ext" "b" (.int 4)]

theorem tallyOps_accepted : (Kernel.replay tally tallyOps {}).isSome = true := by decide

def tallied : Kernel Int := ((Kernel.replay tally tallyOps {}).get tallyOps_accepted).2

/-- The finished counter comes back with its state and without a mailbox, the
other one with its count and its mail, and they count on. -/
theorem restored_run_continues_tally :
    ∃ s l, tallied.snapshot tally = .ok s ∧ Kernel.restore tally counterFactory s = .ok l
      ∧ ∀ n : Int, (l.run tally n).2 = (tallied.run tally n).2
        ∧ (l.run tally n).1.stopReason = (tallied.run tally n).1.stopReason
        ∧ (l.run tally n).1.tick = (tallied.run tally n).1.tick
        ∧ ((l.run tally n).1.roster.map fun a => (a.name, a.state, a.parent, a.restarts))
          = ((tallied.run tally n).1.roster.map fun a => (a.name, a.state, a.parent, a.restarts))
        ∧ ∀ x, (l.run tally n).1.bus.mailboxes.get? x
          = (tallied.run tally n).1.bus.mailboxes.get? x :=
  restored_run_continues tally_contextOnly (Kernel.reached_of_replay tallyOps_accepted) (by
    intro x a ha
    obtain ⟨ref, -, hobj⟩ := Kernel.agent?_eq_some_iff.mp ha
    have hall : ∀ a ∈ tallied.objects, a.body = .user 3 ∨ a.body = .user 1 := by decide
    have hfixed : ∀ a ∈ tallied.objects, a.restartPolicy = .never ∧ a.maxRestarts = 3 := by decide
    have hmem : a ∈ tallied.objects := List.mem_of_getElem? hobj
    obtain ⟨hpolicy, hmax⟩ := hfixed a hmem
    rcases hall a hmem with hbody | hbody
    · exact counterFactory_rebuilds hbody hpolicy hmax
    · exact counterFactory_rebuilds hbody hpolicy hmax)

example : (tallied.roster.map fun a => (a.name, a.state)) = [("a", .done), ("b", .waiting)] := by
  decide

/-! ## A barrier that raises -/

/-- Agents whose hook raises. -/
def hooksRaise : AgentCode Script := hooked (some (.raised "ValueError" "hook"))

theorem quitter_ne : "quitter" ≠ "" := by decide

theorem crasher_ne : "crasher" ≠ "" := by decide

theorem writer_ne : "writer" ≠ "" := by decide

/-- An agent that exits, one that crashes and is to be restarted, and one that
writes to the first. -/
def strandedAgents : List (FreshAgent Script) :=
  [Script.agent "quitter" quitter_ne [.exit],
   Script.agent "crasher" crasher_ne [.fail "crash"] .onFailure,
   Script.agent "writer" writer_ne [.send "quitter" "news"]]

/-- The first two of them. -/
def strandedOps : List (Op Script) := (strandedAgents.take 2).map fun a => .register a none

theorem strandedOps_accepted : (Kernel.replay hooksRaise strandedOps {}).isSome = true := by decide

/-- They run together, and the barrier raises; then the third joins. -/
def strandedActs : List (Act Script) :=
  strandedOps.map Op.act
    ++ [.step .serial false [0, 0, 0, 1, 1]] ++ [.register strandedAgents[2] none]

/-- The kernel after that: who has exited still has a mailbox. -/
def stranded : Kernel Script where
  bus := { mailboxes := Dict.ofList [("quitter", []), ("crasher", []), ("writer", [])] }
  agents := Dict.ofList [("quitter", 0), ("crasher", 1), ("writer", 2)]
  objects :=
    [{ strandedAgents[0].toAgent with state := .done },
     { strandedAgents[1].toAgent with state := .failed, restarts := 1 },
     strandedAgents[2].toAgent]
  tick := 1
  errors := [("crasher", .raised "RuntimeError" "crash")]

theorem stranded_performed : Runs (Kernel.Performs hooksRaise) {} strandedActs stranded := by
  have hops := (Kernel.replay_settles (Option.some_get strandedOps_accepted).symm).mono
    fun _ _ _ h => h.1
  generalize hk : ((Kernel.replay hooksRaise strandedOps {}).get strandedOps_accepted).2 = k at hops
  have hallow : k.Allows hooksRaise .serial false [0, 0, 0, 1, 1] := by
    subst hk
    decide
  have hstep : Kernel.Performs hooksRaise k (.step .serial false [0, 0, 0, 1, 1])
      (k.stepWith hooksRaise .serial false [0, 0, 0, 1, 1]).1 := ⟨hallow, rfl⟩
  have hjoin : (k.stepWith hooksRaise .serial false [0, 0, 0, 1, 1]).1.register strandedAgents[2]
      none = .ok stranded := by
    subst hk
    decide
  exact (hops.snoc hstep).snoc hjoin

/-- The factory of the three. -/
def strandedFactory : Dict String (AgentFactory Script) :=
  Dict.ofList [("Script", fun name =>
    match strandedAgents.find? fun a => a.name = name with
    | some a => .ok a.toAgent
    | none => .error .emptyName)]

theorem stranded_rebuilds {x : String} {a : Agent Script} (h : stranded.agent? x = some a) :
    Rebuilds hooksRaise strandedFactory a := by
  obtain ⟨ref, -, hobj⟩ := Kernel.agent?_eq_some_iff.mp h
  have hmem : a ∈ stranded.objects := List.mem_of_getElem? hobj
  have hall : ∀ a ∈ stranded.objects, hooksRaise.kindOf a = "Script"
      ∧ (strandedAgents.find? fun b => b.name = a.name).map (fun b =>
        (b.name, hooksRaise.loadOf b.toAgent (hooksRaise.saveOf a), b.restartPolicy, b.maxRestarts))
      = some (a.name, .ok a.body, a.restartPolicy, a.maxRestarts) := by decide
  obtain ⟨hkind, hbuilt⟩ := hall a hmem
  obtain ⟨b, hfind, hsame⟩ := Option.map_eq_some_iff.mp hbuilt
  simp only [Prod.mk.injEq] at hsame
  obtain ⟨hname, hload, hpolicy, hmax⟩ := hsame
  have hfactory : strandedFactory.get? "Script" = some fun name =>
      match strandedAgents.find? fun a => a.name = name with
      | some a => .ok a.toAgent
      | none => .error .emptyName := rfl
  rw [Rebuilds, hkind, hfactory]
  exact ⟨b.toAgent, a.body, by simp [hfind], hname, hload, fun _ => ⟨rfl, hpolicy, hmax⟩⟩

/-- **A raising hook breaks the restored run**: the barrier that it ends leaves
the exited agent its mailbox, and the restored agent has none, so writing to it
succeeds in the one run and fails in the other. -/
theorem raising_hook_breaks_restore :
    hooksRaise.ContextOnly ∧ ∃ acts k s l, Runs (Kernel.Performs hooksRaise) {} acts k
      ∧ (∀ x a, k.agent? x = some a → Rebuilds hooksRaise strandedFactory a)
      ∧ k.snapshot hooksRaise = .ok s ∧ Kernel.restore hooksRaise strandedFactory s = .ok l
      ∧ (k.run hooksRaise 1).2.toOption.map (List.map TickReport.failed) = some [[]]
      ∧ (l.run hooksRaise 1).2.toOption.map (List.map TickReport.failed) = some [["writer"]]
      ∧ (l.run hooksRaise 1).2 ≠ (k.run hooksRaise 1).2 := by
  obtain ⟨s, hsnapshot⟩ : ∃ s, stranded.snapshot hooksRaise = .ok s := ⟨_, rfl⟩
  have hrestored : (Kernel.restore hooksRaise strandedFactory s).toOption.map
      (fun l => (l.run hooksRaise 1).2.toOption.map (List.map TickReport.failed))
      = some (some [["writer"]]) := by
    cases hsnapshot
    decide
  have hk : (stranded.run hooksRaise 1).2.toOption.map (List.map TickReport.failed)
      = some [[]] := by decide
  cases hrestore : Kernel.restore hooksRaise strandedFactory s with
  | error e =>
    rw [hrestore] at hrestored
    cases hrestored
  | ok l =>
    rw [hrestore] at hrestored
    have hl : (l.run hooksRaise 1).2.toOption.map (List.map TickReport.failed)
        = some [["writer"]] := Option.some.inj hrestored
    refine ⟨hooked_contextOnly _, _, stranded, s, l, stranded_performed,
      fun x a h => stranded_rebuilds h, hsnapshot, hrestore, hk, hl, fun heq => ?_⟩
    rw [heq, hk] at hl
    revert hl
    decide

end TitoOS
