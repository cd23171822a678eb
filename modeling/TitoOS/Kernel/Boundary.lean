import TitoOS.Kernel.Effect

/-!
# Tick boundaries

`Wf` is the shape of the registry every operation keeps: each registered name
leads to an object of that name. `Sound` is what holds of a kernel between
ticks when nobody unregisters agents: a name has a mailbox exactly when it
belongs to a live agent, and nobody is mid-step.

The start of a tick (`beginTick`) is described here once: which agents are
scheduled, with which inboxes, and what is left in the mailboxes.
-/

namespace TitoOS

variable {σ : Type}

namespace Kernel

/-- Every registered name leads to an agent object of that name. -/
def Wf (k : Kernel σ) : Prop :=
  ∀ x ref, k.agents.get? x = some ref → ∃ a, k.objects[ref]? = some a ∧ a.name = x

theorem Wf.agent? {k : Kernel σ} (h : k.Wf) {x : String} {ref : Nat}
    (hx : k.agents.get? x = some ref) :
    ∃ a, k.agent? x = some a ∧ k.objects[ref]? = some a ∧ a.name = x := by
  obtain ⟨a, ha, hname⟩ := h x ref hx
  exact ⟨a, by simp [Kernel.agent?, hx, ha], ha, hname⟩

/-- An object is registered under at most one name: its own. -/
theorem Wf.ref_inj {k : Kernel σ} (h : k.Wf) {x y : String} {ref : Nat}
    (hx : k.agents.get? x = some ref) (hy : k.agents.get? y = some ref) : x = y := by
  obtain ⟨a, ha, rfl⟩ := h x ref hx
  obtain ⟨b, hb, rfl⟩ := h y ref hy
  rw [ha] at hb
  cases hb
  rfl

theorem agent?_eq_some_iff {k : Kernel σ} {x : String} {a : Agent σ} :
    k.agent? x = some a ↔ ∃ ref, k.agents.get? x = some ref ∧ k.objects[ref]? = some a := by
  simp [Kernel.agent?, Option.bind_eq_some_iff]

/-- `x` is the name of a live agent. -/
def isLive (k : Kernel σ) (x : String) : Bool := (k.agent? x).any Agent.isAlive

theorem isLive_iff {k : Kernel σ} {x : String} :
    k.isLive x = true ↔ ∃ a, k.agent? x = some a ∧ a.isAlive = true := by
  cases h : k.agent? x <;> simp [isLive, h]

theorem mem_keys_of_agent? {k : Kernel σ} {x : String} {a : Agent σ} (h : k.agent? x = some a) :
    x ∈ k.agents.keys := by
  obtain ⟨ref, href, -⟩ := agent?_eq_some_iff.mp h
  exact Dict.mem_keys_of_get? href

theorem mem_keys_of_isLive {k : Kernel σ} {x : String} (h : k.isLive x = true) :
    x ∈ k.agents.keys := by
  obtain ⟨a, ha, -⟩ := isLive_iff.mp h
  exact mem_keys_of_agent? ha

/-- A kernel between ticks, nobody having been unregistered. -/
structure Sound (k : Kernel σ) : Prop where
  wf : k.Wf
  /-- A name has a mailbox exactly when it belongs to a live agent. -/
  mail : ∀ x, x ∈ k.bus.mailboxes.keys ↔ k.isLive x = true
  /-- Nobody is mid-step. -/
  idle : ∀ x a, k.agent? x = some a → a.state ≠ .running

theorem sound_init : ({} : Kernel σ).Sound where
  wf := by intro x ref h; cases h
  mail := by intro x; simp [isLive, Kernel.agent?]
  idle := by intro x a h; cases h

/-! ## Operations between ticks -/

/-- The registry and the objects after a registration. -/
theorem agent?_register {k k' : Kernel σ} {a : FreshAgent σ} {p : Option String}
    (hwf : k.Wf) (h : k.register a p = .ok k') (x : String) :
    k'.agent? x = if x = a.name then some (a.linked p) else k.agent? x := by
  obtain ⟨-, rfl⟩ := register_eq_ok_iff.mp h
  by_cases hx : x = a.name
  · subst hx
    simp [Kernel.agent?]
  · rw [if_neg hx]
    unfold Kernel.agent?
    simp only
    rw [Dict.get?_set_ne _ _ hx]
    cases href : k.agents.get? x with
    | none => rfl
    | some ref =>
      obtain ⟨b, hb, -⟩ := hwf x ref href
      obtain ⟨hlt, -⟩ := List.getElem?_eq_some_iff.mp hb
      simp [List.getElem?_append_left hlt]

theorem Wf.register {k k' : Kernel σ} {a : FreshAgent σ} {p : Option String}
    (hwf : k.Wf) (h : k.register a p = .ok k') : k'.Wf := by
  obtain ⟨-, rfl⟩ := register_eq_ok_iff.mp h
  intro x ref hx
  rw [Dict.get?_set] at hx
  split at hx
  · cases hx
    exact ⟨a.linked p, by simp, by simp [*]⟩
  · obtain ⟨b, hb, hname⟩ := hwf x ref hx
    obtain ⟨hlt, -⟩ := List.getElem?_eq_some_iff.mp hb
    exact ⟨b, by rw [List.getElem?_append_left hlt, hb], hname⟩

/-- The names with a mailbox after a registration. -/
theorem Wf.unregister {k : Kernel σ} (h : k.Wf) (y : String) : (k.unregister y).Wf := by
  intro x ref hx
  simp only [Kernel.unregister, popAgent, dropMailbox, Dict.get?_erase] at hx
  split at hx
  · cases hx
  · exact h x ref hx

theorem mem_mailboxes_register {k k' : Kernel σ} {a : FreshAgent σ} {p : Option String}
    (h : k.register a p = .ok k') (x : String) :
    x ∈ k'.bus.mailboxes.keys ↔ x = a.name ∨ x ∈ k.bus.mailboxes.keys := by
  obtain ⟨-, rfl⟩ := register_eq_ok_iff.mp h
  exact MessageBus.mem_keys_register ..

theorem Sound.register {k k' : Kernel σ} {a : FreshAgent σ} {p : Option String}
    (hs : k.Sound) (h : k.register a p = .ok k') : k'.Sound where
  wf := hs.wf.register h
  mail := by
    intro x
    rw [mem_mailboxes_register h, isLive, agent?_register hs.wf h, hs.mail]
    by_cases hx : x = a.name
    · simp [hx, Agent.isAlive, AgentState.isAlive]
    · simp [hx, isLive]
  idle := by
    intro x b hb
    rw [agent?_register hs.wf h] at hb
    split at hb
    · cases hb; simp
    · exact hs.idle x b hb

/-- What a post from outside does. -/
theorem busPost_eq_ok {k k' : Kernel σ} {s r : String} {p : Value} {m : Metadata}
    (h : k.busPost s r p m = .ok k') :
    ∃ bus, k.bus.send { sender := s, recipient := r, payload := p, metadata := m } = .ok bus
      ∧ k' = { k with bus } := by
  unfold busPost MessageBus.post at h
  cases hs : k.bus.send { sender := s, recipient := r, payload := p, metadata := m } with
  | error e => simp [hs, Except.map] at h
  | ok bus =>
    simp only [hs, Except.map, Except.ok.injEq] at h
    exact ⟨bus, rfl, h.symm⟩

theorem Sound.busPost {k k' : Kernel σ} {s r : String} {p : Value} {m : Metadata}
    (hs : k.Sound) (h : k.busPost s r p m = .ok k') : k'.Sound := by
  obtain ⟨bus, hsend, rfl⟩ := busPost_eq_ok h
  exact ⟨hs.wf, fun x => by rw [MessageBus.keys_send hsend]; exact hs.mail x, hs.idle⟩

/-! ## Live agents -/

theorem mem_liveSnapshot {k : Kernel σ} {ref : Nat} {a : Agent σ} :
    (ref, a) ∈ k.liveSnapshot ↔
      (∃ x, k.agents.get? x = some ref) ∧ k.objects[ref]? = some a ∧ a.isAlive = true := by
  simp only [liveSnapshot, List.mem_filterMap, Dict.mem_values_iff]
  constructor
  · rintro ⟨r, hreg, h⟩
    cases ho : k.objects[r]? with
    | none => simp [ho] at h
    | some b =>
      simp only [ho] at h
      split at h
      · cases h
        exact ⟨hreg, ho, ‹_›⟩
      · cases h
  · rintro ⟨hreg, ho, halive⟩
    exact ⟨ref, hreg, by simp [ho, halive]⟩

/-- The live agents by name. -/
theorem mem_liveSnapshot_iff {k : Kernel σ} (hwf : k.Wf) {ref : Nat} {a : Agent σ} :
    (ref, a) ∈ k.liveSnapshot ↔
      k.agents.get? a.name = some ref ∧ k.objects[ref]? = some a ∧ a.isAlive = true := by
  rw [mem_liveSnapshot]
  constructor
  · rintro ⟨⟨x, hx⟩, ho, halive⟩
    obtain ⟨b, hb, rfl⟩ := hwf x ref hx
    rw [ho] at hb
    cases hb
    exact ⟨hx, ho, halive⟩
  · rintro ⟨hx, ho, halive⟩
    exact ⟨⟨_, hx⟩, ho, halive⟩

private theorem filterMap_names_sublist {objects : List (Agent σ)} (l : List (String × Nat))
    (hl : ∀ e ∈ l, ∃ a, objects[e.2]? = some a ∧ a.name = e.1) :
    (((l.map Prod.snd).filterMap fun ref =>
        match objects[ref]? with
        | some a => if a.isAlive then some (ref, a) else none
        | none => none).map fun e => e.2.name).Sublist (l.map Prod.fst) := by
  induction l with
  | nil => simp
  | cons e rest ih =>
    obtain ⟨a, ha, hname⟩ := hl e (by simp)
    have hrest := ih fun e he => hl e (by simp [he])
    by_cases halive : a.isAlive = true
    · simpa [ha, halive, hname] using hrest.cons_cons e.1
    · simpa [ha, halive] using hrest.cons e.1

theorem liveSnapshot_names_sublist {k : Kernel σ} (hwf : k.Wf) :
    (k.liveSnapshot.map fun e => e.2.name).Sublist k.agents.keys :=
  filterMap_names_sublist k.agents.entries fun e he =>
    hwf e.1 e.2 (Dict.get?_eq_some_iff.mpr he)

/-- Live agents have distinct names. -/
theorem liveSnapshot_names_nodup {k : Kernel σ} (hwf : k.Wf) :
    (k.liveSnapshot.map fun e => e.2.name).Nodup :=
  k.agents.keys_nodup.sublist (liveSnapshot_names_sublist hwf)

/-- Live agents are distinct objects. -/
theorem liveSnapshot_refs_nodup {k : Kernel σ} (hwf : k.Wf) :
    (k.liveSnapshot.map Prod.fst).Nodup := by
  have hnames := liveSnapshot_names_nodup hwf
  have heq : (k.liveSnapshot.map fun e => e.2.name)
      = (k.liveSnapshot.map Prod.fst).map fun ref =>
          ((k.objects[ref]?).map Agent.name).getD "" := by
    rw [List.map_map]
    refine List.map_congr_left (fun e he => ?_)
    obtain ⟨-, ho, -⟩ := mem_liveSnapshot.mp (show (e.1, e.2) ∈ k.liveSnapshot from he)
    simp [ho]
  rw [heq] at hnames
  exact hnames.of_map _

/-! ## The start of a tick -/

/-- What is drained for a name. -/
def inboxOf (k : Kernel σ) (x : String) : List Message := (k.bus.mailboxes.get? x).getD []

theorem drained_eq {k : Kernel σ} (hwf : k.Wf) :
    k.drained = k.liveSnapshot.map fun e => (e, k.inboxOf e.2.name) := by
  unfold drained
  rw [MessageBus.receiveMany_fst _ (liveSnapshot_names_nodup hwf), List.map_map]
  generalize k.liveSnapshot = live
  induction live with
  | nil => rfl
  | cons e rest ih => simp [ih, inboxOf]

/-- The agents scheduled in a tick: the live ones, except those that wait
without mail. -/
theorem scheduled_eq {k : Kernel σ} (hwf : k.Wf) :
    k.scheduled = ((k.liveSnapshot.filter fun e =>
      !(e.2.state = .waiting && (k.inboxOf e.2.name).isEmpty)).map
        fun e => (e, k.inboxOf e.2.name)) := by
  rw [scheduled, drained_eq hwf, List.filter_map]
  rfl

theorem beginTick_jobs {k : Kernel σ} (hwf : k.Wf) :
    k.beginTick.jobs = (k.liveSnapshot.filter fun e =>
      !(e.2.state = .waiting && (k.inboxOf e.2.name).isEmpty)).map
        fun e => { ref := e.1, name := e.2.name, inbox := k.inboxOf e.2.name } := by
  simp [beginTick, scheduled_eq hwf, Function.comp_def]

/-- A job of a new tick has not begun, and its agent object exists. -/
theorem object_of_mem_beginTick {k : Kernel σ} {job : Job σ} (h : job ∈ k.beginTick.jobs) :
    job.phase = .pending ∧ ∃ a, k.objects[job.ref]? = some a := by
  obtain ⟨⟨⟨ref, a⟩, inbox⟩, hmem, rfl⟩ := List.mem_map.mp h
  obtain ⟨-, ho, -⟩ := mem_liveSnapshot.mp (List.of_mem_zip (List.mem_filter.mp hmem).1).1
  exact ⟨rfl, a, ho⟩

/-- Membership in the job list of a tick. -/
theorem mem_beginTick_jobs {k : Kernel σ} (hwf : k.Wf) {job : Job σ} :
    job ∈ k.beginTick.jobs ↔ ∃ a, k.agents.get? a.name = some job.ref
      ∧ k.objects[job.ref]? = some a ∧ a.isAlive = true
      ∧ (a.state = .waiting → k.inboxOf a.name ≠ [])
      ∧ job = { ref := job.ref, name := a.name, inbox := k.inboxOf a.name } := by
  simp only [beginTick_jobs hwf, List.mem_map, List.mem_filter]
  constructor
  · rintro ⟨⟨ref, a⟩, ⟨hmem, hskip⟩, rfl⟩
    obtain ⟨hreg, ho, halive⟩ := (mem_liveSnapshot_iff hwf).mp hmem
    exact ⟨a, hreg, ho, halive, by simpa [imp_iff_not_or] using hskip, rfl⟩
  · rintro ⟨a, hreg, ho, halive, hskip, hjob⟩
    exact ⟨(job.ref, a), ⟨(mem_liveSnapshot_iff hwf).mpr ⟨hreg, ho, halive⟩,
      by simpa [imp_iff_not_or] using hskip⟩,
      hjob.symm⟩

theorem beginTick_refs_nodup {k : Kernel σ} (hwf : k.Wf) :
    (k.beginTick.jobs.map Job.ref).Nodup := by
  rw [beginTick_jobs hwf, List.map_map]
  exact (liveSnapshot_refs_nodup hwf).sublist (List.filter_sublist.map _)

theorem beginTick_names_nodup {k : Kernel σ} (hwf : k.Wf) :
    (k.beginTick.jobs.map Job.name).Nodup := by
  rw [beginTick_jobs hwf, List.map_map]
  exact (liveSnapshot_names_nodup hwf).sublist (List.filter_sublist.map _)

@[simp] theorem beginTick_agents (k : Kernel σ) : k.beginTick.kernel.agents = k.agents := rfl

@[simp] theorem beginTick_objects (k : Kernel σ) : k.beginTick.kernel.objects = k.objects := rfl

@[simp] theorem beginTick_errors (k : Kernel σ) : k.beginTick.kernel.errors = k.errors := rfl

@[simp] theorem beginTick_tick (k : Kernel σ) : k.beginTick.kernel.tick = k.tick + 1 := rfl

@[simp] theorem beginTick_keys (k : Kernel σ) :
    k.beginTick.kernel.bus.mailboxes.keys = k.bus.mailboxes.keys :=
  MessageBus.keys_receiveMany ..

/-- Draining empties the mailboxes of the live agents and no other. -/
theorem beginTick_box {k : Kernel σ} (hwf : k.Wf) (x : String) :
    k.beginTick.kernel.bus.mailboxes.get? x
      = if k.isLive x = true then (k.bus.mailboxes.get? x).map fun _ => []
        else k.bus.mailboxes.get? x := by
  show (k.bus.receiveMany (k.liveSnapshot.map fun e => e.2.name)).2.mailboxes.get? x = _
  rw [MessageBus.get?_receiveMany]
  have hiff : x ∈ (k.liveSnapshot.map fun e => e.2.name)
      ↔ k.isLive x = true := by
    simp only [List.mem_map, Prod.exists, isLive_iff, agent?_eq_some_iff]
    constructor
    · rintro ⟨ref, a, hmem, rfl⟩
      obtain ⟨hreg, ho, halive⟩ := (mem_liveSnapshot_iff hwf).mp hmem
      exact ⟨a, ⟨ref, hreg, ho⟩, halive⟩
    · rintro ⟨a, ⟨ref, hreg, ho⟩, halive⟩
      obtain ⟨b, hb, rfl⟩ := hwf x ref hreg
      rw [ho] at hb
      cases hb
      exact ⟨ref, a, (mem_liveSnapshot_iff hwf).mpr ⟨hreg, ho, halive⟩, rfl⟩
  simp only [hiff]

end Kernel

end TitoOS
