import TitoOS.Restoration

/-!
# Saving and restoring again and again

A snapshot that is restored and taken again is the same snapshot
(`snapshot_restore`), and so it stays over any number of rounds, whichever
finished agents come back as placeholders in which of them
(`snapshots_stable`). What is restored need not be a twin of what was saved:
it is enough that every agent comes back with its record.
-/

namespace TitoOS

variable {σ : Type}

/-- The factories bring back the agent of a record: the one of its kind builds an
agent of that name which, once it has loaded the recorded data, is of that kind
and saves that data again. A finished agent needs none. -/
def Recovers (code : AgentCode σ) (factories : Dict String (AgentFactory σ)) (r : AgentRecord) :
    Prop :=
  match factories.get? r.kind with
  | none => (AgentState.ofValue? r.state).any AgentState.isFinished = true
  | some factory => ∃ bare body, factory r.name = .ok bare ∧ bare.name = r.name
      ∧ code.loadOf bare r.data = .ok body
      ∧ code.kindOf { bare with body } = r.kind ∧ code.saveOf { bare with body } = r.data

namespace Kernel

/-- The kernels there are: a fresh one, a restored one, and what becomes of a
kernel by an act from outside or in the middle of a tick. -/
inductive Arises (code : AgentCode σ) : Kernel σ → Prop
  | init : Arises code {}
  | restored {factories : Dict String (AgentFactory σ)} {s : Snapshot} {k : Kernel σ} :
      Kernel.restore code factories s = .ok k → Arises code k
  | act {k k' : Kernel σ} {act : Act σ} :
      Arises code k → k.Performs code act k' → Arises code k'
  | inside {k : Kernel σ} (async : Bool) (sched : List Nat) :
      Arises code k → Arises code (k.beginTick.exec code async sched).kernel

/-- Restore and snapshot, once for each map of factories. -/
def resave (code : AgentCode σ) : List (Dict String (AgentFactory σ)) → Snapshot →
    Except Exc Snapshot
  | [], s => .ok s
  | factories :: rest, s =>
    match restore code factories s with
    | .error e => .error e
    | .ok k =>
      match k.snapshot code with
      | .error e => .error e
      | .ok s' => resave code rest s'

variable {code : AgentCode σ} {factories : Dict String (AgentFactory σ)}

/-! ## What restore builds -/

private theorem bind_eq_ok_iff {α β : Type} {x : Except Exc α} {f : α → Except Exc β} {b : β} :
    (x >>= f) = .ok b ↔ ∃ a, x = .ok a ∧ f a = .ok b := by
  cases x with
  | error e => simp [bind, Except.bind]
  | ok a => simp [bind, Except.bind]

/-- Setting the state of an agent object keeps the registry as it is. -/
theorem Wf.setState {k : Kernel σ} (h : k.Wf) (ref : Nat) (state : AgentState) :
    (k.setState ref state).Wf := by
  intro x r hx
  obtain ⟨a, ha, hname⟩ := h x r hx
  rw [Kernel.setState, getElem?_modifyAgent]
  by_cases hr : r = ref
  · exact ⟨{ a with state }, by simp [hr, hr ▸ ha], hname⟩
  · exact ⟨a, by simp [hr, ha], hname⟩

theorem Wf.registerObject {k k' : Kernel σ} {a : Agent σ} (h : k.Wf)
    (hreg : k.registerObject a = .ok k') : k'.Wf := by
  obtain ⟨-, rfl⟩ := registerObject_eq_ok_iff.mp hreg
  intro x ref hx
  rw [Dict.get?_set] at hx
  split at hx
  · cases hx
    exact ⟨a, by simp, by simp [*]⟩
  · obtain ⟨b, hb, hname⟩ := h x ref hx
    obtain ⟨hlt, -⟩ := List.getElem?_eq_some_iff.mp hb
    exact ⟨b, by rw [List.getElem?_append_left hlt, hb], hname⟩

theorem Wf.restoreAgent {k k' : Kernel σ} {r : AgentRecord} (h : k.Wf)
    (hr : Kernel.restoreAgent code factories k r = .ok k') : k'.Wf := by
  unfold Kernel.restoreAgent at hr
  obtain ⟨bare, -, hr⟩ := bind_eq_ok_iff.mp hr
  split at hr
  · cases hr
  · obtain ⟨body, -, hr⟩ := bind_eq_ok_iff.mp hr
    obtain ⟨k1, hreg, hr⟩ := bind_eq_ok_iff.mp hr
    split at hr
    · cases hr
    · cases hr
      exact (h.registerObject hreg).setState _ _

theorem Wf.restoreAll {m k : Kernel σ} {records : List AgentRecord} (h : m.Wf)
    (hr : records.foldlM (Kernel.restoreAgent code factories) m = .ok k) : k.Wf := by
  induction records generalizing m with
  | nil =>
    cases hr
    exact h
  | cons r rest ih =>
    rw [List.foldlM_cons] at hr
    obtain ⟨m', hone, hrest⟩ := bind_eq_ok_iff.mp hr
    exact ih (h.restoreAgent hone) hrest

/-- What `restore` makes of one record: the agent that the factories build for it,
with the recorded data, registered under its name. -/
theorem restoreAgent_cases {m k : Kernel σ} {r : AgentRecord}
    (h : Kernel.restoreAgent code factories m r = .ok k) :
    ∃ bare body state, buildAgent factories r = .ok bare
      ∧ code.loadOf { bare with parent := r.parent, restarts := r.restarts } r.data = .ok body
      ∧ AgentState.ofValue? r.state = some state ∧ r.name ∉ m.agents.keys
      ∧ k.agents = m.agents.set r.name m.objects.length
      ∧ k.objects = m.objects
        ++ [{ bare with parent := r.parent, restarts := r.restarts, body, state }] := by
  unfold Kernel.restoreAgent at h
  obtain ⟨bare, hbuild, h⟩ := bind_eq_ok_iff.mp h
  split at h
  · cases h
  · rename_i hname
    have hname : bare.name = r.name := not_not.mp hname
    obtain ⟨body, hload, h⟩ := bind_eq_ok_iff.mp h
    obtain ⟨k1, hreg, h⟩ := bind_eq_ok_iff.mp h
    obtain ⟨hnew, rfl⟩ := registerObject_eq_ok_iff.mp hreg
    split at h
    · cases h
    · rename_i state hstate
      cases h
      exact ⟨bare, body, state, hbuild, hload, hstate, hname ▸ hnew, by rw [← hname]; rfl,
        modify_concat _ _ _⟩

/-- Every record is restored so, and what has been registered stays. -/
theorem restoreAll_cases {m k : Kernel σ} {records : List AgentRecord}
    (h : records.foldlM (Kernel.restoreAgent code factories) m = .ok k) :
    (∀ x ref a, m.agents.get? x = some ref → m.objects[ref]? = some a →
        k.agents.get? x = some ref ∧ k.objects[ref]? = some a)
    ∧ ∀ r ∈ records, ∃ bare body state ref, buildAgent factories r = .ok bare
      ∧ code.loadOf { bare with parent := r.parent, restarts := r.restarts } r.data = .ok body
      ∧ AgentState.ofValue? r.state = some state ∧ k.agents.get? r.name = some ref
      ∧ k.objects[ref]?
        = some { bare with parent := r.parent, restarts := r.restarts, body, state } := by
  induction records generalizing m with
  | nil =>
    cases h
    exact ⟨fun _ _ _ hx ha => ⟨hx, ha⟩, nofun⟩
  | cons r rest ih =>
    rw [List.foldlM_cons] at h
    obtain ⟨m', hone, hrest⟩ := bind_eq_ok_iff.mp h
    obtain ⟨bare, body, state, hbuild, hload, hstate, hnew, hagents, hobjects⟩ :=
      restoreAgent_cases hone
    obtain ⟨hkept, hall⟩ := ih hrest
    constructor
    · intro x ref a hx ha
      obtain ⟨hlt, -⟩ := List.getElem?_eq_some_iff.mp ha
      have hne : x ≠ r.name := by
        rintro rfl
        exact hnew (Dict.mem_keys_of_get? hx)
      refine hkept x ref a ?_ ?_
      · rw [hagents, Dict.get?_set, if_neg hne, hx]
      · rw [hobjects, List.getElem?_append_left hlt, ha]
    · intro r' hr'
      rcases List.mem_cons.mp hr' with rfl | hmem
      · obtain ⟨hreg, hobj⟩ := hkept r'.name m.objects.length _
          (by rw [hagents, Dict.get?_set, if_pos rfl])
          (by rw [hobjects, List.getElem?_concat_length])
        exact ⟨bare, body, state, m.objects.length, hbuild, hload, hstate, hreg, hobj⟩
      · exact hall r' hmem

/-- The end of `restore` changes mailboxes only, and none with mail in it. -/
theorem reopen_filter (objs : List (Agent σ)) (m : Kernel σ) :
    ∃ bus, objs.foldl reopenFor m = { m with bus }
      ∧ bus.mailboxes.filter (fun _ messages => !messages.isEmpty)
        = m.bus.mailboxes.filter fun _ messages => !messages.isEmpty := by
  induction objs generalizing m with
  | nil => exact ⟨m.bus, rfl, rfl⟩
  | cons a rest ih =>
    obtain ⟨bus, hbus, hkept⟩ : ∃ bus, reopenFor m a = { m with bus }
        ∧ bus.mailboxes.filter (fun _ messages => !messages.isEmpty)
          = m.bus.mailboxes.filter fun _ messages => !messages.isEmpty := by
      unfold reopenFor
      split
      · exact ⟨_, rfl, Dict.filter_setDefault _ rfl⟩
      · split
        · rename_i hpending
          refine ⟨_, rfl, Dict.filter_erase _ fun messages hmessages => ?_⟩
          simpa [MessageBus.pending, hmessages] using hpending
        · exact ⟨m.bus, rfl, rfl⟩
    obtain ⟨bus', hbus', hkept'⟩ := ih { m with bus }
    exact ⟨bus', by rw [List.foldl_cons, hbus, hbus'], hkept'.trans hkept⟩

/-- What is restored has the agents of the snapshot, and a bus. -/
theorem restore_cases {s : Snapshot} {k : Kernel σ}
    (h : Kernel.restore code factories s = .ok k) :
    ∃ m bus, s.agents.foldlM (restoreAgent code factories)
        { ({} : Kernel σ) with tick := s.tick } = .ok m ∧ k = { m with bus } := by
  unfold Kernel.restore at h
  split at h
  · cases h
  · simp only at h
    split at h
    · cases h
    · obtain ⟨m, hall, h⟩ := bind_eq_ok_iff.mp h
      obtain ⟨bus, hreopen, -⟩ := reopen_filter
        (Kernel.roster { m with bus := m.bus.load s.mailboxes })
        { m with bus := m.bus.load s.mailboxes }
      cases h
      exact ⟨m, bus, hall, hreopen⟩

/-- Whatever is restored, by whatever factories, has its registry in order. -/
theorem wf_restore {s : Snapshot} {k : Kernel σ}
    (h : Kernel.restore code factories s = .ok k) : k.Wf := by
  obtain ⟨m, bus, hall, rfl⟩ := restore_cases h
  have hnone : ({ ({} : Kernel σ) with tick := s.tick } : Kernel σ).Wf :=
    fun x ref hx => by cases hx
  have hm : m.Wf := hnone.restoreAll hall
  exact hm

/-- **What becomes of an agent that is saved and restored**: it is registered under
its name, as the agent the factories build, with its state and its saved data. -/
theorem restored_agent {s : Snapshot} {k l : Kernel σ} (hsnapshot : k.snapshot code = .ok s)
    (hrestore : Kernel.restore code factories s = .ok l) {x : String} {a : Agent σ}
    (ha : k.agent? x = some a) :
    ∃ bare body ref, buildAgent factories (record code a) = .ok bare
      ∧ code.loadOf { bare with parent := a.parent, restarts := a.restarts } (code.saveOf a)
        = .ok body
      ∧ l.agents.get? a.name = some ref
      ∧ l.objects[ref]? = some
        { bare with parent := a.parent, restarts := a.restarts, body, state := a.state } := by
  have hrecord : record code a ∈ s.agents := by
    unfold snapshot at hsnapshot
    split at hsnapshot
    · cases hsnapshot
    · cases hsnapshot
      obtain ⟨ref, href, hobj⟩ := agent?_eq_some_iff.mp ha
      refine List.mem_map_of_mem (List.mem_filterMap.mpr ⟨ref, ?_, hobj⟩)
      exact List.mem_map.mpr ⟨(x, ref), Dict.get?_eq_some_iff.mp href, rfl⟩
  obtain ⟨m, bus, hall, rfl⟩ := restore_cases hrestore
  obtain ⟨bare, body, state, ref, hbuild, hload, hstate, hreg, hobj⟩ :=
    (restoreAll_cases hall).2 _ hrecord
  obtain rfl : a.state = state := by simpa [record] using hstate
  exact ⟨bare, body, ref, hbuild, hload, hreg, hobj⟩

/-- Every kernel has its registry in order. -/
theorem Arises.wf {k : Kernel σ} (h : k.Arises code) : k.Wf := by
  induction h with
  | init => exact sound_init.wf
  | restored hrestore => exact wf_restore hrestore
  | act _ hperf ih => exact wf_of_performs (Runs.nil.snoc hperf) ih
  | inside async sched _ ih => exact ((InTick.begin ih).exec ih code async sched).wf

/-! ## One round -/

/-- The registered agents are registered under their names. -/
theorem Wf.roster_names {k : Kernel σ} (h : k.Wf) : k.roster.map Agent.name = k.agents.keys := by
  have hall : ∀ l : List (String × Nat),
      (∀ e ∈ l, ∃ a, k.objects[e.2]? = some a ∧ a.name = e.1) →
      ((l.map Prod.snd).filterMap fun ref => k.objects[ref]?).map Agent.name
        = l.map Prod.fst := by
    intro l hl
    induction l with
    | nil => rfl
    | cons e rest ih =>
      obtain ⟨a, ha, hname⟩ := hl e (by simp)
      have hrest := ih fun e he => hl e (by simp [he])
      rw [List.map_cons, List.filterMap_cons, ha]
      simp only [List.map_cons, hname, hrest]
  exact hall k.agents.entries fun e he => h e.1 e.2 (Dict.get?_eq_some_iff.mpr he)

theorem Wf.roster_nodup {k : Kernel σ} (h : k.Wf) : (k.roster.map Agent.name).Nodup :=
  h.roster_names ▸ k.agents.keys_nodup

/-- The guard of `snapshot` looks at the states of the registered agents. -/
theorem runningNames_eq_nil_iff {k : Kernel σ} :
    k.runningNames = [] ↔ ∀ a ∈ k.roster, a.state ≠ .running := by
  simp only [runningNames, List.filterMap_eq_nil_iff, roster, List.mem_filterMap]
  constructor
  · rintro h a ⟨ref, href, ha⟩ hrun
    have := h ref href
    simp [ha, hrun] at this
  · intro h ref href
    cases ha : k.objects[ref]? with
    | none => rfl
    | some a =>
      have := h a ⟨ref, href, ha⟩
      simp [this]

theorem snapshot_eq_ok_iff {k : Kernel σ} {s : Snapshot} :
    k.snapshot code = .ok s ↔ (∀ a ∈ k.roster, a.state ≠ .running) ∧ s = {
      tick := k.tick
      agents := k.roster.map (record code)
      mailboxes := k.bus.mailboxes.filter fun _ messages => !messages.isEmpty } := by
  rw [← runningNames_eq_nil_iff, snapshot]
  cases hempty : k.runningNames.isEmpty with
  | true =>
    simp only [Bool.not_true, Bool.false_eq_true, if_false, Except.ok.injEq,
      List.isEmpty_iff.mp hempty, true_and]
    exact eq_comm
  | false =>
    have hne : k.runningNames ≠ [] := by simpa using hempty
    simp [hne]

/-- A record tells the state. -/
theorem state_of_record_eq {a b : Agent σ} (h : record code b = record code a) :
    b.state = a.state := by
  have hvalue : b.state.value = a.state.value := congrArg AgentRecord.state h
  have hstate := congrArg AgentState.ofValue? hvalue
  simpa using hstate

/-- What the factories build for an agent has its record. -/
theorem buildAgent_of_recovers {a : Agent σ} (h : Recovers code factories (record code a)) :
    ∃ bare body, buildAgent factories (record code a) = .ok bare ∧ bare.name = a.name
      ∧ code.loadOf bare (code.saveOf a) = .ok body
      ∧ record code (rebuilt a bare body) = record code a := by
  unfold Recovers at h
  unfold buildAgent
  cases hfactory : factories.get? (record code a).kind with
  | none =>
    refine ⟨{ name := a.name, name_ne := a.name_ne, body := .finished (code.kindOf a) ∅ },
      .finished (code.kindOf a) (code.saveOf a), ?_, rfl, rfl, rfl⟩
    simp [finishedAgent, record, a.name_ne]
  | some factory =>
    rw [hfactory] at h
    obtain ⟨bare, body, hbare, hname, hload, hkind, hsave⟩ := h
    refine ⟨bare, body, hbare, hname, hload, ?_⟩
    have hkind' : code.kindOf (rebuilt a bare body) = code.kindOf a := hkind
    have hsave' : code.saveOf (rebuilt a bare body) = code.saveOf a := hsave
    have hname' : (rebuilt a bare body).name = a.name := hname
    simp only [record, hname', hkind', hsave']
    rfl

/-- The kind of an agent that is still alive has a factory. -/
theorem contains_of_recovers {a : Agent σ} (h : Recovers code factories (record code a))
    (halive : a.isAlive = true) : factories.contains (code.kindOf a) = true := by
  unfold Recovers at h
  cases hfactory : factories.get? (code.kindOf a) with
  | some factory => simp [Dict.contains, hfactory]
  | none =>
    rw [show (record code a).kind = code.kindOf a from rfl, hfactory] at h
    simp [record, AgentState.isFinished] at h
    rw [Agent.isAlive, h] at halive
    cases halive

theorem map_record_eq {l m : List (Agent σ)}
    (h : List.Forall₂ (fun a b => record code b = record code a) l m) :
    m.map (record code) = l.map (record code) := by
  induction h with
  | nil => rfl
  | cons hab _ ih => rw [List.map_cons, List.map_cons, hab, ih]

/-- **One round**: a snapshot can be restored, and the restored kernel has the
same snapshot. -/
theorem snapshot_restore {k : Kernel σ} (hwf : k.Wf) {s : Snapshot}
    (hsnapshot : k.snapshot code = .ok s) (hrecovers : ∀ r ∈ s.agents, Recovers code factories r) :
    ∃ k', Kernel.restore code factories s = .ok k' ∧ k'.Wf ∧ k'.snapshot code = .ok s := by
  obtain ⟨hidle, rfl⟩ := snapshot_eq_ok_iff.mp hsnapshot
  have hbuild : ∀ a ∈ k.roster, ∃ bare body, buildAgent factories (record code a) = .ok bare
      ∧ bare.name = a.name ∧ code.loadOf bare (code.saveOf a) = .ok body
      ∧ record code (rebuilt a bare body) = record code a := fun a ha =>
    buildAgent_of_recovers (hrecovers _ (List.mem_map_of_mem ha))
  -- the rebuilt agents stand in the order of the roster
  obtain ⟨m, built, hall, hobjects, hrecords, henrolled, htick, -⟩ :=
    restoreAll code (R := fun a b => record code b = record code a)
      (m := { ({} : Kernel σ) with tick := k.tick }) hbuild rfl (by simpa using hwf.roster_nodup)
  obtain rfl : m.objects = built := by simpa using hobjects
  have hmap := map_record_eq hrecords
  have hcovered : ∀ a ∈ k.roster, a.isAlive = true →
      factories.contains (code.kindOf a) = true := fun a ha =>
    contains_of_recovers (hrecovers _ (List.mem_map_of_mem ha))
  generalize hloaded : (k.bus.mailboxes.filter fun _ messages => !messages.isEmpty) = loaded
  have hfilter : loaded.filter (fun _ messages => !messages.isEmpty) = loaded := by
    rw [← hloaded, Dict.filter_filter]
  -- the mailboxes that are opened again are empty, and the next snapshot drops them
  obtain ⟨bus, hreopen, hkept⟩ := reopen_filter m.objects { m with bus := m.bus.load loaded }
  have hroster : ∀ bus', Kernel.roster { m with bus := bus' } = m.objects := fun bus' =>
    Enrolled.roster_eq (k := { m with bus := bus' }) henrolled
  have hrestore : Kernel.restore code factories
      { tick := k.tick, agents := k.roster.map (record code), mailboxes := loaded }
        = .ok { m with bus } := by
    have hmissing := missing_eq_nil code factories
      (s := { tick := k.tick, agents := k.roster.map (record code), mailboxes := loaded }) rfl
      hcovered
    unfold Kernel.restore
    simp only [find?_invalid_record, hmissing, List.isEmpty_nil, Bool.not_true, Bool.false_eq_true,
      if_false, hall, bind, Except.bind, reopen, hroster, hreopen]
  refine ⟨_, hrestore, wf_restore hrestore, snapshot_eq_ok_iff.mpr ⟨?_, ?_⟩⟩
  · intro b hb
    have hrecord : record code b ∈ k.roster.map (record code) := by
      rw [← hmap]
      exact List.mem_map_of_mem (hroster bus ▸ hb)
    obtain ⟨a, ha, heq⟩ := List.mem_map.mp hrecord
    rw [← state_of_record_eq heq]
    exact hidle a ha
  · rw [hroster, hmap, show bus.mailboxes.filter _ = _ from hkept]
    simp only [MessageBus.load, hfilter, htick]

/-! ## Any number of rounds -/

theorem resave_eq {k : Kernel σ} (hwf : k.Wf) {s : Snapshot} (hsnapshot : k.snapshot code = .ok s)
    {rounds : List (Dict String (AgentFactory σ))}
    (hrecovers : ∀ factories ∈ rounds, ∀ r ∈ s.agents, Recovers code factories r) :
    resave code rounds s = .ok s := by
  induction rounds generalizing k with
  | nil => rfl
  | cons factories rest ih =>
    obtain ⟨k', hrestore, hwf', hsnapshot'⟩ :=
      snapshot_restore hwf hsnapshot (hrecovers factories (by simp))
    have hrest := ih hwf' hsnapshot' fun f hf => hrecovers f (by simp [hf])
    rw [resave, hrestore]
    simp only [hsnapshot', hrest]

end Kernel

/-- **Snapshots are stable.** Whatever kernel a snapshot was taken from, restoring
and saving it again, any number of times and with other factories every time,
gives the same snapshot: the same records in the same order and the same
mailboxes, those of names that are not agents included. -/
theorem snapshots_stable {code : AgentCode σ} {k : Kernel σ} (h : k.Arises code) {s : Snapshot}
    (hsnapshot : k.snapshot code = .ok s) {rounds : List (Dict String (AgentFactory σ))}
    (hrecovers : ∀ factories ∈ rounds, ∀ r ∈ s.agents, Recovers code factories r) :
    Kernel.resave code rounds s = .ok s :=
  Kernel.resave_eq h.wf hsnapshot hrecovers

/-! ## Three rounds -/

/-- The code of agents of any class that save what they have loaded. -/
def keeping : AgentCode (String × Metadata) where
  step _ _ _ _ := .wait .ret
  onRestart s _ := (s, none)
  isAsync _ := false
  kind s := s.1
  saveState s := s.2
  loadState s data := .ok (s.1, data)

/-- The factory of such agents of one class. -/
def maker (kind : String) : AgentFactory (String × Metadata) := fun name =>
  if h : name = "" then .error .emptyName
  else .ok { name, name_ne := h, body := .user (kind, ∅) }

theorem recovers_of_maker {factories : Dict String (AgentFactory (String × Metadata))}
    {r : AgentRecord} (h : factories.get? r.kind = some (maker r.kind)) (hname : r.name ≠ "") :
    Recovers keeping factories r := by
  rw [Recovers, h]
  exact ⟨{ name := r.name, name_ne := hname, body := .user (r.kind, ∅) }, .user (r.kind, r.data),
    by simp [maker, hname], rfl, rfl, rfl, rfl⟩

/-- A waiting agent with mail, a finished one with mail, and mail for a name that
is not an agent. -/
def archived : Snapshot where
  tick := 7
  agents :=
    [{ name := "old", kind := "Retired", state := "failed", parent := some "boss", restarts := 3,
       data := Dict.ofList [("count", .int 1)] },
     { name := "boss", kind := "Boss", state := "waiting", data := Dict.ofList [("n", .int 2)] }]
  mailboxes := Dict.ofList
    [("ghost", [{ sender := "user", recipient := "ghost", payload := .str "?" }]),
     ("old", [{ sender := "boss", recipient := "old", payload := .str "late" }]),
     ("boss", [{ sender := "old", recipient := "boss", payload := .str "bye" }])]

/-- The factory of the living, with and without one of the retired. -/
def makers (withRetired : Bool) : Dict String (AgentFactory (String × Metadata)) :=
  if withRetired then Dict.ofList [("Boss", maker "Boss"), ("Retired", maker "Retired")]
  else Dict.ofList [("Boss", maker "Boss")]

theorem archived_restored : ∃ k, Kernel.restore keeping (makers true) archived = .ok k
    ∧ k.snapshot keeping = .ok archived :=
  ⟨_, rfl, by decide⟩

/-- The retired agent needs no factory, and either way comes back with its
record. -/
theorem makers_recover (withRetired : Bool) :
    ∀ r ∈ archived.agents, Recovers keeping (makers withRetired) r := by
  intro r hr
  rcases List.mem_pair.mp hr with rfl | rfl
  · cases withRetired with
    | true => exact recovers_of_maker rfl (by decide)
    | false => rfl
  · exact recovers_of_maker (by cases withRetired <;> rfl) (by decide)

/-- The retired agent is a real one, a placeholder and a real one again. -/
theorem snapshots_stable_archived :
    Kernel.resave keeping [makers true, makers false, makers true] archived = .ok archived := by
  obtain ⟨k, hrestore, hsnapshot⟩ := archived_restored
  refine snapshots_stable (.restored hrestore) hsnapshot fun factories hmem => ?_
  simp only [List.mem_cons, List.not_mem_nil, or_false] at hmem
  rcases hmem with rfl | rfl | rfl
  · exact makers_recover true
  · exact makers_recover false
  · exact makers_recover true

end TitoOS
