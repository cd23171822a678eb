import TitoOS.Kernel.InTick

/-!
# Ticks of agents that keep to `Context`

When every step uses `send`, `broadcast`, `spawn`, `wait` and `exit` only, the
registry and the set of mailboxes can only grow during a tick. The mailboxes
are then known exactly (`ContextTick`): each holds what draining left in it,
or what registration found there, followed by what the tick has delivered to
it, in acceptance order. From a sound kernel, draining leaves nothing.
-/

namespace TitoOS

variable {σ : Type}

namespace Kernel

/-- `x` was registered between `k` and `k'`. -/
def joinedBy (k k' : Kernel σ) (x : String) : Prop :=
  x ∈ k'.agents.keys ∧ x ∉ k.agents.keys

instance (k k' : Kernel σ) (x : String) : Decidable (k.joinedBy k' x) :=
  inferInstanceAs (Decidable (_ ∧ _))

/-- What the mailbox of `x` held before the tick from `k` to `k'` delivered
anything to it: what draining left, or an empty mailbox opened by registering. -/
def opened (k k' : Kernel σ) (x : String) : Option (List Message) :=
  if k.joinedBy k' x then some ((k.beginTick.kernel.bus.mailboxes.get? x).getD [])
  else k.beginTick.kernel.bus.mailboxes.get? x

/-- Every live agent has a mailbox. -/
def Addressable (k : Kernel σ) : Prop := ∀ x, k.isLive x = true → x ∈ k.bus.mailboxes.keys

theorem Sound.addressable {k : Kernel σ} (hs : k.Sound) : k.Addressable :=
  fun x hx => (hs.mail x).mpr hx

end Kernel

/-- `t` is a point of a tick of Context-only agents that started from `k`, with
`log` delivered so far. -/
structure ContextTick (k : Kernel σ) (t : TickState σ) (log : List Delivery) : Prop where
  inTick : InTick k t
  steps : ∀ job ∈ t.jobs, job.ContextOnly
  /-- No inbox list is changed. -/
  handedBack : ∀ job ∈ t.jobs, job.handedBack = job.inbox
  /-- The registry only grows. -/
  registered : ∀ x ref, k.agents.get? x = some ref → t.kernel.agents.get? x = some ref
  /-- Each mailbox has grown by what the tick has delivered to it. -/
  box : ∀ x, t.kernel.bus.mailboxes.get? x
    = (k.opened t.kernel x).map (· ++ deliveredTo x log)
  /-- Nothing is delivered where there is no mailbox. -/
  quiet : ∀ x, k.opened t.kernel x = none → deliveredTo x log = []

namespace ContextTick

variable {k : Kernel σ} {t : TickState σ} {log : List Delivery}

theorem begin (hwf : k.Wf) : ContextTick k k.beginTick [] where
  inTick := .begin hwf
  steps := by
    intro job hjob
    obtain ⟨a, -, -, -, -, heq⟩ := (Kernel.mem_beginTick_jobs hwf).mp hjob
    rw [heq]
    trivial
  handedBack := by
    intro job hjob
    obtain ⟨a, -, -, -, -, heq⟩ := (Kernel.mem_beginTick_jobs hwf).mp hjob
    rw [heq]
    rfl
  registered := fun _ _ h => h
  box := by
    intro x
    have hno : ¬ k.joinedBy k.beginTick.kernel x := fun h => h.2 h.1
    simp [Kernel.opened, hno]
  quiet := fun _ _ => rfl

/-- The effect of an action that removes nothing keeps the mailbox invariant. -/
private theorem boxes {k1 k2 : Kernel σ} {ref : Nat} {name : String} {out : List Delivery}
    {fails : List (String × Exc)} (heff : Effect k1 ref name false out fails k2)
    (hreg : ∀ x ref, k.agents.get? x = some ref → k1.agents.get? x = some ref)
    (hbox : ∀ x, k1.bus.mailboxes.get? x = (k.opened k1 x).map (· ++ deliveredTo x log))
    (hquiet : ∀ x, k.opened k1 x = none → deliveredTo x log = []) :
    (∀ x, k2.bus.mailboxes.get? x = (k.opened k2 x).map (· ++ deliveredTo x (log ++ out)))
    ∧ ∀ x, k.opened k2 x = none → deliveredTo x (log ++ out) = [] := by
  cases heff with
  | quiet | own | fail =>
    rw [List.append_nil]
    exact ⟨hbox, hquiet⟩
  | send m bus hm hsend =>
    constructor
    · intro x
      show bus.mailboxes.get? x = (k.opened k1 x).map _
      rw [MessageBus.get?_send hsend, hbox x, deliveredTo_append]
      cases k.opened k1 x <;> simp
    · intro x (hx : k.opened k1 x = none)
      have hno := hbox x
      rw [hx, Option.map_none, Dict.get?_eq_none_iff] at hno
      rw [deliveredTo_append, hquiet x hx, MessageBus.deliveredTo_deliveries,
        if_neg (fun h => hno h.1)]
      rfl
  | register a p hnew =>
    have hk : a.name ∉ k.agents.keys := by
      intro hin
      obtain ⟨ref, href⟩ := Dict.mem_keys_iff.mp hin
      exact hnew (Dict.mem_keys_of_get? (hreg _ _ href))
    -- the name is open from now on, and nothing else changes
    have hopen : ∀ x, k.opened { k1 with
        objects := k1.objects ++ [a.linked p]
        agents := k1.agents.set a.name k1.objects.length
        bus := k1.bus.register a.name } x
          = if x = a.name then some ((k.opened k1 x).getD []) else k.opened k1 x := by
      intro x
      by_cases hx : x = a.name
      · subst hx
        simp [Kernel.opened, Kernel.joinedBy, Dict.keys_set_of_not_mem hnew, hk, hnew]
      · have hj : k.joinedBy { k1 with
            objects := k1.objects ++ [a.linked p]
            agents := k1.agents.set a.name k1.objects.length
            bus := k1.bus.register a.name } x ↔ k.joinedBy k1 x := by
          simp [Kernel.joinedBy, Dict.keys_set_of_not_mem hnew, hx]
        simp only [Kernel.opened, hj, if_neg hx]
    simp only [List.append_nil, MessageBus.get?_register, hopen]
    constructor
    · intro x
      by_cases hx : x = a.name
      · subst hx
        rw [if_pos rfl, if_pos rfl, hbox]
        cases ho : k.opened k1 a.name with
        | none => simp [hquiet _ ho]
        | some mailbox => simp
      · rw [if_neg hx, if_neg hx, hbox]
    · intro x hx
      split at hx
      · cases hx
      · exact hquiet x hx

/-- One move keeps the invariant. -/
theorem advance (h : ContextTick k t log) (hwf : k.Wf) {code : AgentCode σ}
    (hcode : code.ContextOnly) (async : Bool) (i : Nat) :
    ContextTick k (t.advance code async i) (log ++ t.deliveries i) := by
  cases hi : t.jobs[i]? with
  | none => simpa [TickState.advance_of_none hi, TickState.deliveries, hi] using h
  | some job =>
    have hjob : job ∈ t.jobs := List.mem_of_getElem? hi
    have heff := t.kernel.moveJob_effect code async job (r := false) fun _ => h.steps job hjob
    have hout : t.deliveries i = t.kernel.moveDeliveries job := by simp [TickState.deliveries, hi]
    have hker : (t.advance code async i).kernel = (t.kernel.moveJob code async job).1 :=
      TickState.kernel_advance hi
    have hboxes := boxes heff h.registered h.box h.quiet
    constructor
    case inTick => exact h.inTick.advance hwf code async i
    case steps =>
      exact TickState.forall_advance hi h.steps
        (Kernel.moveJob_contextOnly hcode _ async (h.steps job hjob))
    case handedBack =>
      refine TickState.forall_advance hi h.handedBack ?_
      exact (t.kernel.moveJob_handedBack code async (h.steps job hjob)).trans
        (h.handedBack job hjob)
    case registered => exact fun x ref hx => hker ▸ heff.registered (h.registered x ref hx)
    case box => rw [hker, hout]; exact hboxes.1
    case quiet => rw [hker, hout]; exact hboxes.2

/-- **The mailboxes of a tick**: the invariant holds after any schedule, with
what the schedule delivered. -/
theorem exec (hwf : k.Wf) {code : AgentCode σ} (hcode : code.ContextOnly) (async : Bool)
    (sched : List Nat) :
    ContextTick k (k.beginTick.exec code async sched) (k.beginTick.log code async sched) :=
  TickState.exec_log_induction (I := ContextTick k)
    (fun i _ _ hu => hu.advance hwf hcode async i) sched (begin hwf)

/-- New names belong to new objects. -/
theorem joined (h : ContextTick k t log) {x : String} {ref : Nat}
    (hx : t.kernel.agents.get? x = some ref) (hnew : x ∉ k.agents.keys) :
    k.objects.length ≤ ref :=
  (h.inTick.registry x ref hx).resolve_left fun hold => hnew (Dict.mem_keys_of_get? hold)

/-- An agent that joined during the tick is READY and was never restarted. -/
theorem joined_fresh (h : ContextTick k t log) {x : String} {a : Agent σ}
    (hx : t.kernel.agent? x = some a) (hout : x ∉ k.agents.keys) :
    a.state = .ready ∧ a.restarts = 0 := by
  obtain ⟨ref, hreg, ho⟩ := Kernel.agent?_eq_some_iff.mp hx
  exact h.inTick.fresh ref a (h.joined hreg hout) ho

/-- An agent that is alive now was alive at the start of the tick or joined
since: a dead agent is not scheduled, so its object stays as it is. -/
theorem live_or_joined (h : ContextTick k t log) (hwf : k.Wf) {x : String} {a : Agent σ}
    (hx : t.kernel.agent? x = some a) (halive : a.isAlive = true) :
    k.isLive x = true ∨ k.joinedBy t.kernel x := by
  obtain ⟨ref, hreg, ho⟩ := Kernel.agent?_eq_some_iff.mp hx
  by_cases hin : x ∈ k.agents.keys
  · left
    obtain ⟨ref', hreg'⟩ := Dict.mem_keys_iff.mp hin
    have href : ref' = ref := Option.some.inj ((h.registered _ _ hreg').symm.trans hreg)
    subst href
    obtain ⟨b, hb, ho', rfl⟩ := hwf.agent? hreg'
    refine Kernel.isLive_iff.mpr ⟨b, hb, ?_⟩
    obtain ⟨b', hob', -, hpend⟩ := h.inTick.object ref' b ho'
    have hab : a = b' := Option.some.inj (ho.symm.trans hob')
    by_contra hdead
    refine hdead ((hpend fun job hjob href => ?_) ▸ hab ▸ halive)
    obtain ⟨c, -, hc, -, hcalive, -⟩ := h.inTick.origin hwf hjob
    rw [href, ho'] at hc
    cases hc
    exact absurd hcalive hdead
  · exact .inr ⟨Dict.mem_keys_of_get? hreg, hin⟩

/-- Who was alive at the start or has joined since has a mailbox. -/
theorem hasBox (h : ContextTick k t log) (ha : k.Addressable) {x : String}
    (hx : k.isLive x = true ∨ k.joinedBy t.kernel x) : x ∈ t.kernel.bus.mailboxes.keys := by
  rw [Dict.mem_keys_iff, h.box]
  by_cases hj : k.joinedBy t.kernel x
  · simp [Kernel.opened, hj]
  · have hlive := hx.resolve_right hj
    have hkeys := ha x hlive
    rw [← Kernel.beginTick_keys, Dict.mem_keys_iff] at hkeys
    obtain ⟨mailbox, hbox⟩ := hkeys
    simp [Kernel.opened, hj, hbox]

/-! ## From a sound kernel -/

/-- The mailboxes of a tick from a sound kernel: those of the agents live at the
start and of those that joined, holding what the tick delivered. -/
theorem box_of_sound (h : ContextTick k t log) (hs : k.Sound) (x : String) :
    (k.isLive x = true ∨ k.joinedBy t.kernel x →
        t.kernel.bus.mailboxes.get? x = some (deliveredTo x log))
    ∧ (¬ (k.isLive x = true ∨ k.joinedBy t.kernel x) →
        t.kernel.bus.mailboxes.get? x = none ∧ deliveredTo x log = []) := by
  have hbegin : k.beginTick.kernel.bus.mailboxes.get? x
      = if k.isLive x = true then some [] else none := by
    rw [Kernel.beginTick_box hs.wf]
    by_cases hl : k.isLive x = true
    · obtain ⟨mailbox, hbox⟩ := Dict.mem_keys_iff.mp ((hs.mail x).mpr hl)
      simp [hl, hbox]
    · simp [hl, Dict.get?_eq_none_iff, hs.mail]
  have hbox := h.box x
  have hquiet := h.quiet x
  simp only [Kernel.opened, hbegin] at hbox hquiet
  by_cases hj : k.joinedBy t.kernel x <;> by_cases hl : k.isLive x = true <;> simp_all

end ContextTick

end TitoOS
