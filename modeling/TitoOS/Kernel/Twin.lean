import TitoOS.Kernel.Boundary

/-!
# Twin kernels

Two kernels are twins when no agent can tell them apart: they have the same
registry, the same live agents and the same mailbox under every name. Finished
agents need only agree in what the kernel still reads of them. Twins do the
same in every step and every run (`Twins.step`, `Twins.run`), whatever their
agents do.

`Twins hidden used k l` also says that the agent objects at the addresses `used` are
the same, finished or not: those a tick is working on.
-/

namespace TitoOS

variable {σ : Type}

/-- `b` can stand for `a`: it is the same agent, or `a` has finished and `b`
agrees with it in what the kernel reads of a finished agent. -/
def Agent.StoodForBy (a b : Agent σ) : Prop :=
  b = a ∨ (a.isAlive = false ∧ b.name = a.name ∧ b.state = a.state ∧ b.parent = a.parent
    ∧ b.restarts = a.restarts)

namespace Agent.StoodForBy

variable {a b : Agent σ}

theorem refl (a : Agent σ) : a.StoodForBy a := .inl rfl

theorem name_eq (h : a.StoodForBy b) : b.name = a.name := by
  rcases h with rfl | ⟨-, hname, -⟩
  · rfl
  · exact hname

theorem state_eq (h : a.StoodForBy b) : b.state = a.state := by
  rcases h with rfl | ⟨-, -, hstate, -⟩
  · rfl
  · exact hstate

theorem parent_eq (h : a.StoodForBy b) : b.parent = a.parent := by
  rcases h with rfl | ⟨-, -, -, hparent, -⟩
  · rfl
  · exact hparent

theorem restarts_eq (h : a.StoodForBy b) : b.restarts = a.restarts := by
  rcases h with rfl | ⟨-, -, -, -, hrestarts⟩
  · rfl
  · exact hrestarts

theorem isAlive_eq (h : a.StoodForBy b) : b.isAlive = a.isAlive := by
  rw [Agent.isAlive, Agent.isAlive, h.state_eq]

theorem eq_of_isAlive (h : a.StoodForBy b) (halive : a.isAlive = true) : b = a :=
  h.resolve_right fun hfin => by simp [halive] at hfin

/-- Lists of agents that stand for one another agree in all they agree in. -/
theorem map_eq {β : Type} {f : Agent σ → β} (hf : ∀ a b : Agent σ, a.StoodForBy b → f b = f a)
    {as bs : List (Agent σ)} (h : List.Forall₂ Agent.StoodForBy as bs) : bs.map f = as.map f := by
  induction h with
  | nil => rfl
  | cons hab _ ih => rw [List.map_cons, List.map_cons, hf _ _ hab, ih]

end Agent.StoodForBy

namespace Kernel

/-- A tick keeps the identity of its jobs. -/
theorem map_ref_runTick (code : AgentCode σ) (jobs : List (Job σ)) (k : Kernel σ) :
    (k.runTick code jobs).2.map Job.ref = jobs.map Job.ref := by
  induction jobs generalizing k with
  | nil => rfl
  | cons job rest ih =>
    simp only [runTick]
    split
    · simp [ih]
    · rfl

/-- `l` is a twin of `k`, with the same objects at the addresses `used`. -/
structure Twins (hidden : String → Prop) (used : List Nat) (k l : Kernel σ) : Prop where
  tick : l.tick = k.tick
  stopReason : l.stopReason = k.stopReason
  agents : l.agents = k.agents
  objects : List.Forall₂ Agent.StoodForBy k.objects l.objects
  used : ∀ ref ∈ used, l.objects[ref]? = k.objects[ref]?
  bus : k.bus.Same hidden l.bus

namespace Twins

variable {hidden : String → Prop} {used : List Nat} {k l : Kernel σ}

theorem mono (h : Twins hidden used k l) {less : List Nat} (hsub : ∀ ref ∈ less, ref ∈ used) :
    Twins hidden less k l :=
  { h with used := fun ref href => h.used ref (hsub ref href) }

theorem length (h : Twins hidden used k l) : l.objects.length = k.objects.length :=
  h.objects.length_eq.symm

/-- At each address twins have objects that stand for one another, or none. -/
theorem object (h : Twins hidden used k l) (ref : Nat) :
    (k.objects[ref]? = none ∧ l.objects[ref]? = none)
      ∨ ∃ a b, k.objects[ref]? = some a ∧ l.objects[ref]? = some b ∧ a.StoodForBy b := by
  cases hk : k.objects[ref]? with
  | none =>
    refine .inl ⟨rfl, ?_⟩
    rw [List.getElem?_eq_none_iff] at hk ⊢
    rwa [h.length]
  | some a =>
    right
    obtain ⟨hlt, rfl⟩ := List.getElem?_eq_some_iff.mp hk
    have hlt' : ref < l.objects.length := h.length ▸ hlt
    exact ⟨_, _, rfl, List.getElem?_eq_getElem hlt', h.objects.get hlt hlt'⟩

/-! ## Operations on twins -/

theorem withBus (h : Twins hidden used k l) {bus bus' : MessageBus} (hbus : bus.Same hidden bus') :
    Twins hidden used { k with bus } { l with bus := bus' } :=
  { h with bus := hbus }

theorem modifyAgent (h : Twins hidden used k l) {ref : Nat} (href : ref ∈ used)
    (f : Agent σ → Agent σ) : Twins hidden used (k.modifyAgent ref f) (l.modifyAgent ref f) where
  tick := h.tick
  stopReason := h.stopReason
  agents := h.agents
  objects := by
    refine List.forall₂_iff_get.mpr ⟨by simp [h.length], fun i hi hi' => ?_⟩
    simp only [Kernel.modifyAgent, List.length_modify] at hi hi'
    simp only [Kernel.modifyAgent, List.get_eq_getElem, List.getElem_modify]
    split
    · subst i
      have heq := h.used ref href
      rw [List.getElem?_eq_getElem hi, List.getElem?_eq_getElem hi'] at heq
      rw [Option.some.inj heq]
      exact .refl _
    · exact h.objects.get hi hi'
  used := by
    intro r hr
    simp only [Kernel.modifyAgent, List.getElem?_modify, h.used r hr]
  bus := h.bus

theorem setState (h : Twins hidden used k l) {ref : Nat} (href : ref ∈ used) (s : AgentState) :
    Twins hidden used (k.setState ref s) (l.setState ref s) :=
  h.modifyAgent href _

theorem recordFailure (h : Twins hidden used k l) {ref : Nat} (href : ref ∈ used) (name : String)
    (e : Exc) : Twins hidden used (k.recordFailure ref name e) (l.recordFailure ref name e) :=
  { h.setState href .failed with }

theorem ctxSend (h : Twins hidden used k l) (name recipient : String) (payload : Value)
    (metadata : Metadata) :
    (l.ctxSend name recipient payload metadata).2 = (k.ctxSend name recipient payload metadata).2
      ∧ Twins hidden used (k.ctxSend name recipient payload metadata).1
        (l.ctxSend name recipient payload metadata).1 := by
  unfold Kernel.ctxSend MessageBus.post
  rcases h.bus.send { sender := name, recipient, payload, metadata } with
    ⟨e, hk, hl⟩ | ⟨b, b', hk, hl, hsame⟩
  · rw [hk, hl]
    exact ⟨rfl, h⟩
  · rw [hk, hl]
    exact ⟨rfl, h.withBus hsame⟩

theorem registerObject (h : Twins hidden used k l) (a : Agent σ) :
    (∃ e, k.registerObject a = .error e ∧ l.registerObject a = .error e)
      ∨ ∃ k' l', k.registerObject a = .ok k' ∧ l.registerObject a = .ok l'
        ∧ Twins hidden used k' l' := by
  unfold Kernel.registerObject
  rw [h.agents]
  split
  · exact .inl ⟨_, rfl, rfl⟩
  · refine .inr ⟨_, _, rfl, rfl, ?_⟩
    constructor
    case tick => exact h.tick
    case stopReason => exact h.stopReason
    case agents => simp [h.length]
    case objects => exact List.rel_append h.objects (.cons (.refl a) .nil)
    case used =>
      intro r hr
      simp only [List.getElem?_append, h.length, h.used r hr]
    case bus => exact h.bus.register a.name

theorem ctxRegister (h : Twins hidden used k l) (a : FreshAgent σ) (p : Option String) :
    (l.ctxRegister a p).2 = (k.ctxRegister a p).2
      ∧ Twins hidden used (k.ctxRegister a p).1 (l.ctxRegister a p).1 := by
  unfold Kernel.ctxRegister Kernel.register
  rcases h.registerObject (a.linked p) with ⟨e, hk, hl⟩ | ⟨k', l', hk, hl, h'⟩
  · rw [hk, hl]
    exact ⟨rfl, h⟩
  · rw [hk, hl]
    exact ⟨rfl, h'⟩

theorem popAgent (h : Twins hidden used k l) (n : String) :
    Twins hidden used (k.popAgent n) (l.popAgent n) :=
  { h with agents := by simp [Kernel.popAgent, h.agents] }

theorem dropMailbox (h : Twins hidden used k l) (n : String) :
    Twins hidden used (k.dropMailbox n) (l.dropMailbox n) :=
  h.withBus (h.bus.unregister n)

/-! ## Steps of agents -/

/-- **The rest of a step** does the same on twins. -/
theorem runStep {ref : Nat} (href : ref ∈ used) (name : String) (prog : StepProg σ)
    (h : Twins hidden used k l) (calls : List Call) (inbox : List Message) :
    (l.runStep ref name prog calls inbox).2 = (k.runStep ref name prog calls inbox).2
      ∧ Twins hidden used (k.runStep ref name prog calls inbox).1
        (l.runStep ref name prog calls inbox).1 := by
  induction prog generalizing k l calls inbox with
  | ret => exact ⟨rfl, h.modifyAgent href _⟩
  | raise e =>
    unfold Kernel.runStep
    split
    · exact ⟨rfl, h.recordFailure href name e⟩
    · exact ⟨rfl, h⟩
  | coroutine => exact ⟨rfl, h.modifyAgent href _⟩
  | store s rest ih => exact ih (h.modifyAgent href _) calls inbox
  | inbox messages rest ih => exact ih h calls messages
  | send recipient payload metadata rest ih =>
    obtain ⟨hanswer, h'⟩ := h.ctxSend name recipient payload metadata
    unfold Kernel.runStep
    simp only [hanswer]
    exact ih _ h' _ inbox
  | broadcast payload metadata rest ih =>
    exact ih (h.ctxSend name BROADCAST payload metadata).2 _ inbox
  | spawn child rest ih =>
    obtain ⟨hanswer, h'⟩ := h.ctxRegister child (some name)
    unfold Kernel.runStep
    simp only [hanswer]
    exact ih _ h' _ inbox
  | wait rest ih => exact ih (h.setState href .waiting) _ inbox
  | exit rest ih => exact ih (h.setState href .done) _ inbox
  | register agent parent rest ih =>
    obtain ⟨hanswer, h'⟩ := h.ctxRegister agent parent
    unfold Kernel.runStep
    simp only [hanswer]
    exact ih _ h' _ inbox
  | unregister n rest ih => exact ih ((h.popAgent n).dropMailbox n) _ inbox
  | dropMailbox n rest ih => exact ih (h.dropMailbox n) calls inbox

theorem runAgent (code : AgentCode σ) (h : Twins hidden used k l) {job : Job σ}
    (href : job.ref ∈ used) :
    (l.runAgent code job).2 = (k.runAgent code job).2
      ∧ Twins hidden used (k.runAgent code job).1 (l.runAgent code job).1 := by
  unfold Kernel.runAgent Kernel.start
  rw [h.used job.ref href, h.tick]
  cases k.objects[job.ref]? with
  | none => exact ⟨rfl, h⟩
  | some a => exact runStep href job.name _ (h.setState href .running) [] job.inbox

/-- The jobs of a tick do the same on twins. -/
theorem runTick (code : AgentCode σ) {jobs : List (Job σ)} (hjobs : ∀ job ∈ jobs, job.ref ∈ used)
    (h : Twins hidden used k l) :
    (l.runTick code jobs).2 = (k.runTick code jobs).2
      ∧ Twins hidden used (k.runTick code jobs).1 (l.runTick code jobs).1 := by
  induction jobs generalizing k l with
  | nil => exact ⟨rfl, h⟩
  | cons job rest ih =>
    obtain ⟨hphase, h'⟩ := h.runAgent code (hjobs job (by simp))
    unfold Kernel.runTick
    simp only [hphase]
    split
    · obtain ⟨hrest, h''⟩ := ih (fun j hj => hjobs j (by simp [hj])) h'
      exact ⟨by rw [hrest], h''⟩
    · exact ⟨rfl, h'⟩

/-! ## The barrier -/

theorem supervise (code : AgentCode σ) (h : Twins hidden used k l) {job : Job σ}
    (href : job.ref ∈ used) :
    (l.supervise code job).2 = (k.supervise code job).2
      ∧ Twins hidden used (k.supervise code job).1 (l.supervise code job).1 := by
  unfold Kernel.supervise
  rw [h.used job.ref href]
  cases k.objects[job.ref]? with
  | none => exact ⟨rfl, h⟩
  | some a =>
    simp only
    split
    · cases code.restartOf { a with restarts := a.restarts + 1 } with
      | mk body raised =>
        cases raised with
        | some e => exact ⟨rfl, h.modifyAgent href _⟩
        | none => exact ⟨rfl, (h.modifyAgent href _).withBus (h.bus.requeue a.name job.handedBack)⟩
    · exact ⟨rfl, h⟩

theorem superviseAll (code : AgentCode σ) {jobs : List (Job σ)}
    (hjobs : ∀ job ∈ jobs, job.ref ∈ used) (h : Twins hidden used k l) :
    (l.superviseAll code jobs).2 = (k.superviseAll code jobs).2
      ∧ Twins hidden used (k.superviseAll code jobs).1 (l.superviseAll code jobs).1 := by
  induction jobs generalizing k l with
  | nil => exact ⟨rfl, h⟩
  | cons job rest ih =>
    obtain ⟨hanswer, h'⟩ := h.supervise code (hjobs job (by simp))
    unfold Kernel.superviseAll
    generalize k.supervise code job = rk at hanswer h'
    generalize l.supervise code job = rl at hanswer h'
    obtain ⟨k', answer⟩ := rk
    obtain ⟨l', answer'⟩ := rl
    obtain rfl : answer' = answer := hanswer
    cases answer' with
    | error e => exact ⟨rfl, h'⟩
    | ok restarted =>
      obtain ⟨hnames, h''⟩ := ih (fun j hj => hjobs j (by simp [hj])) h'
      simp only
      generalize k'.superviseAll code rest = sk at hnames h''
      generalize l'.superviseAll code rest = sl at hnames h''
      obtain ⟨k'', names⟩ := sk
      obtain ⟨l'', names'⟩ := sl
      obtain rfl : names' = names := hnames
      cases names' with
      | error e => exact ⟨rfl, h''⟩
      | ok => exact ⟨rfl, h''⟩

theorem agent?_isAlive (h : Twins hidden used k l) (x : String) :
    (l.agent? x).map Agent.isAlive = (k.agent? x).map Agent.isAlive := by
  unfold Kernel.agent?
  rw [h.agents]
  cases k.agents.get? x with
  | none => rfl
  | some ref =>
    rcases h.object ref with ⟨hk, hl⟩ | ⟨a, b, hk, hl, hab⟩
    · simp [hk, hl]
    · simp [hk, hl, hab.isAlive_eq]

/-- Twins post the same notices. -/
theorem notice (h : Twins hidden used k l) (ref : Nat) : l.notice ref = k.notice ref := by
  unfold Kernel.notice
  rcases h.object ref with ⟨hk, hl⟩ | ⟨a, b, hk, hl, hab⟩
  · simp [hk, hl]
  · simp only [hk, hl, hab.parent_eq, hab.name_eq, hab.restarts_eq, Option.bind_eq_bind,
      Option.bind_some]
    cases a.parent with
    | none => rfl
    | some parent =>
      have halive := h.agent?_isAlive parent
      cases hkp : k.agent? parent <;> cases hlp : l.agent? parent <;> simp_all

theorem escalate (h : Twins hidden used k l) (ref : Nat) :
    (∃ e, k.escalate ref = .error e ∧ l.escalate ref = .error e)
      ∨ ∃ k' l', k.escalate ref = .ok k' ∧ l.escalate ref = .ok l' ∧ Twins hidden used k' l' := by
  unfold Kernel.escalate
  rw [h.notice]
  cases k.notice ref with
  | none => exact .inr ⟨k, l, rfl, rfl, h⟩
  | some m =>
    rcases h.bus.send m with ⟨e, hk, hl⟩ | ⟨b, b', hk, hl, hsame⟩
    · exact .inl ⟨e, by simp [hk, Except.map], by simp [hl, Except.map]⟩
    · exact .inr ⟨_, _, by simp [hk, Except.map], by simp [hl, Except.map], h.withBus hsame⟩

theorem hasFailed (h : Twins hidden used k l) (ref : Nat) : l.hasFailed ref = k.hasFailed ref := by
  unfold Kernel.hasFailed
  rcases h.object ref with ⟨hk, hl⟩ | ⟨a, b, hk, hl, hab⟩
  · rw [hk, hl]
  · rw [hk, hl]
    simp only [hab.state_eq]

theorem escalateAll (h : Twins hidden used k l) (jobs : List (Job σ)) :
    (l.escalateAll jobs).2 = (k.escalateAll jobs).2
      ∧ Twins hidden used (k.escalateAll jobs).1 (l.escalateAll jobs).1 := by
  induction jobs generalizing k l with
  | nil => exact ⟨rfl, h⟩
  | cons job rest ih =>
    unfold Kernel.escalateAll
    rw [h.hasFailed]
    split
    · rcases h.escalate job.ref with ⟨e, hk, hl⟩ | ⟨k', l', hk, hl, h'⟩
      · rw [hk, hl]
        exact ⟨rfl, h⟩
      · rw [hk, hl]
        exact ih h'
    · exact ih h

theorem reclaim (h : Twins hidden used k l) (job : Job σ) :
    Twins hidden used (k.reclaim job) (l.reclaim job) := by
  unfold Kernel.reclaim
  rcases h.object job.ref with ⟨hk, hl⟩ | ⟨a, b, hk, hl, hab⟩
  · rw [hk, hl]
    exact h
  · rw [hk, hl]
    simp only [hab.state_eq, hab.name_eq]
    split
    · exact h.withBus (h.bus.unregister a.name)
    · exact h

theorem reclaimAll (h : Twins hidden used k l) (jobs : List (Job σ)) :
    Twins hidden used (jobs.foldl Kernel.reclaim k) (jobs.foldl Kernel.reclaim l) := by
  induction jobs generalizing k l with
  | nil => exact h
  | cons job rest ih => exact ih (h.reclaim job)

/-- **The barrier** does the same on twins. -/
theorem barrier (code : AgentCode σ) (h : Twins hidden used k l) {jobs : List (Job σ)}
    (hjobs : ∀ job ∈ jobs, job.ref ∈ used) (waiting : List String) :
    (TickState.barrier code waiting ⟨l, jobs⟩).2 = (TickState.barrier code waiting ⟨k, jobs⟩).2
      ∧ Twins hidden used (TickState.barrier code waiting ⟨k, jobs⟩).1
        (TickState.barrier code waiting ⟨l, jobs⟩).1 := by
  unfold TickState.barrier TickState.report
  have hcas : TickState.casualties ⟨l, jobs⟩ = TickState.casualties ⟨k, jobs⟩ := rfl
  rw [hcas, h.tick]
  have hcasualties : ∀ job ∈ TickState.casualties ⟨k, jobs⟩, job.ref ∈ used :=
    fun job hjob => hjobs job (List.filter_sublist.subset hjob)
  obtain ⟨hnames, h1⟩ := h.superviseAll code hcasualties
  simp only
  generalize k.superviseAll code (TickState.casualties ⟨k, jobs⟩) = rk at hnames h1
  generalize l.superviseAll code (TickState.casualties ⟨k, jobs⟩) = rl at hnames h1
  obtain ⟨k1, names⟩ := rk
  obtain ⟨l1, names'⟩ := rl
  obtain rfl : names' = names := hnames
  cases names' with
  | error e => exact ⟨rfl, h1⟩
  | ok restarted =>
    obtain ⟨hraised, h2⟩ := h1.escalateAll (TickState.casualties ⟨k, jobs⟩)
    simp only
    generalize k1.escalateAll (TickState.casualties ⟨k, jobs⟩) = sk at hraised h2
    generalize l1.escalateAll (TickState.casualties ⟨k, jobs⟩) = sl at hraised h2
    obtain ⟨k2, raised⟩ := sk
    obtain ⟨l2, raised'⟩ := sl
    obtain rfl : raised' = raised := hraised
    cases raised' with
    | some e => exact ⟨rfl, h2⟩
    | none => exact ⟨rfl, h2.reclaimAll jobs⟩

/-! ## Ticks and runs -/

/-- Twins have the same live agents. -/
theorem liveSnapshot (h : Twins hidden used k l) : l.liveSnapshot = k.liveSnapshot := by
  unfold Kernel.liveSnapshot
  rw [h.agents]
  refine List.filterMap_congr fun ref _ => ?_
  rcases h.object ref with ⟨hk, hl⟩ | ⟨a, b, hk, hl, hab⟩
  · rw [hk, hl]
  · rw [hk, hl]
    simp only [hab.isAlive_eq]
    split
    · rw [hab.eq_of_isAlive ‹_›]
    · rfl

/-- No live agent's mail is hidden. -/
def Visible (hidden : String → Prop) (k : Kernel σ) : Prop :=
  ∀ x ∈ k.liveSnapshot.map fun e => e.2.name, ¬ hidden x

theorem drained (h : Twins hidden used k l) (hvis : Visible hidden k) : l.drained = k.drained := by
  unfold Kernel.drained
  rw [h.liveSnapshot, (h.bus.receiveMany hvis).1]

theorem scheduled (h : Twins hidden used k l) (hvis : Visible hidden k) :
    l.scheduled = k.scheduled := by
  unfold Kernel.scheduled
  rw [h.drained hvis]

/-- The objects a tick works on are the same in twins. -/
theorem beginTick (h : Twins hidden used k l) (hvis : Visible hidden k) :
    l.beginTick.jobs = k.beginTick.jobs
      ∧ Twins hidden (k.beginTick.jobs.map Job.ref) k.beginTick.kernel l.beginTick.kernel := by
  refine ⟨by simp only [Kernel.beginTick, h.scheduled hvis], ?_⟩
  constructor
  case tick => simp [h.tick]
  case stopReason => exact h.stopReason
  case agents => exact h.agents
  case objects => exact h.objects
  case used =>
    intro ref href
    simp only [Kernel.beginTick, List.map_map, List.mem_map, Function.comp] at href
    obtain ⟨e, he, rfl⟩ := href
    have hlive : ∀ k : Kernel σ, e ∈ k.scheduled → k.objects[e.1.1]? = some e.1.2 := by
      intro k he
      have hmem := (List.of_mem_zip (List.mem_of_mem_filter he)).1
      exact (mem_liveSnapshot.mp hmem).2.1
    show l.objects[e.1.1]? = k.objects[e.1.1]?
    rw [hlive k he, hlive l (h.scheduled hvis ▸ he)]
  case bus =>
    show (k.bus.receiveMany _).2.Same hidden (l.bus.receiveMany _).2
    rw [h.liveSnapshot]
    exact (h.bus.receiveMany hvis).2

/-- The registered agents of twins agree in name, state, parent and restarts. -/
theorem roster (h : Twins hidden used k l) {β : Type} {f : Agent σ → β}
    (hf : ∀ a b : Agent σ, a.StoodForBy b → f b = f a) : l.roster.map f = k.roster.map f := by
  unfold Kernel.roster
  rw [h.agents, List.map_filterMap, List.map_filterMap]
  refine List.filterMap_congr fun ref _ => ?_
  rcases h.object ref with ⟨hk, hl⟩ | ⟨a, b, hk, hl, hab⟩
  · rw [hk, hl]
  · rw [hk, hl, Option.map_some, Option.map_some, hf a b hab]

end Twins

/-- No agent can tell `l` from `k`. -/
abbrev Twin (k l : Kernel σ) : Prop := Twins (fun _ => False) [] k l

namespace Twin

variable {k l : Kernel σ}

/-- **Twins take the same step**: same report or exception, and they stay twins. -/
theorem step (code : AgentCode σ) (h : Twin k l) :
    (l.step code).2 = (k.step code).2 ∧ Twin (k.step code).1 (l.step code).1 := by
  have hvis : Twins.Visible (fun _ => False) k := fun _ _ => id
  obtain ⟨hjobs, h0⟩ := h.beginTick hvis
  have hrefused : l.refused code .serial false = k.refused code .serial false := by
    unfold Kernel.refused
    rw [h.scheduled hvis]
  have hwaiting : l.waitingNames = k.waitingNames := by
    unfold Kernel.waitingNames
    rw [h.drained hvis]
  unfold Kernel.step
  rw [hrefused, hwaiting, hjobs]
  cases k.refused code .serial false with
  | some e => exact ⟨rfl, h0.mono (by simp)⟩
  | none =>
    have hown : ∀ job ∈ k.beginTick.jobs, job.ref ∈ k.beginTick.jobs.map Job.ref :=
      fun job hjob => List.mem_map_of_mem hjob
    obtain ⟨hran, h1⟩ := h0.runTick code hown
    have hrefs : ∀ job ∈ (k.beginTick.kernel.runTick code k.beginTick.jobs).2,
        job.ref ∈ k.beginTick.jobs.map Job.ref := by
      intro job hjob
      rw [← map_ref_runTick code k.beginTick.jobs k.beginTick.kernel]
      exact List.mem_map_of_mem hjob
    simp only
    generalize k.beginTick.kernel.runTick code k.beginTick.jobs = rk at hran h1 hrefs
    generalize l.beginTick.kernel.runTick code k.beginTick.jobs = rl at hran h1
    obtain ⟨k1, jobs⟩ := rk
    obtain ⟨l1, jobs'⟩ := rl
    obtain rfl : jobs' = jobs := hran
    have hraises : Backend.serial.raises ⟨l1, jobs'⟩ = Backend.serial.raises ⟨k1, jobs'⟩ := rfl
    simp only [hraises]
    cases Backend.serial.raises (⟨k1, jobs'⟩ : TickState σ) with
    | some e => exact ⟨rfl, h1.mono (by simp)⟩
    | none =>
      obtain ⟨hreport, h2⟩ := h1.barrier code hrefs k.waitingNames
      exact ⟨hreport, h2.mono (by simp)⟩

theorem isQuiescentWith (h : Twin k l) (live : List (Nat × Agent σ)) :
    l.isQuiescentWith live = k.isQuiescentWith live := by
  unfold Kernel.isQuiescentWith
  rw [h.bus.anyPending fun _ _ => id]

theorem stopped (h : Twin k l) (reason : Option StopReason) :
    Twin { k with stopReason := reason } { l with stopReason := reason } :=
  { h with stopReason := rfl }

theorem finishRun (h : Twin k l) : Twin k.finishRun l.finishRun := by
  unfold Kernel.finishRun
  rw [h.liveSnapshot, h.isQuiescentWith]
  split
  · exact Twin.stopped h _
  · split
    · exact Twin.stopped h _
    · exact h

theorem runLoop (code : AgentCode σ) (n : Nat) (h : Twin k l) :
    (l.runLoop code n).2 = (k.runLoop code n).2
      ∧ Twin (k.runLoop code n).1 (l.runLoop code n).1 := by
  induction n generalizing k l with
  | zero => exact ⟨rfl, h.finishRun⟩
  | succ n ih =>
    unfold Kernel.runLoop
    rw [h.liveSnapshot, h.isQuiescentWith]
    split
    · exact ⟨rfl, Twin.stopped h _⟩
    · split
      · exact ⟨rfl, Twin.stopped h _⟩
      · obtain ⟨hreport, h'⟩ := h.step code
        generalize k.step code = rk at hreport h'
        generalize l.step code = rl at hreport h'
        obtain ⟨k', report⟩ := rk
        obtain ⟨l', report'⟩ := rl
        obtain rfl : report' = report := hreport
        cases report' with
        | error e => exact ⟨rfl, h'⟩
        | ok report =>
          obtain ⟨hreports, h''⟩ := ih h'
          simp only
          generalize k'.runLoop code n = sk at hreports h''
          generalize l'.runLoop code n = sl at hreports h''
          obtain ⟨k'', reports⟩ := sk
          obtain ⟨l'', reports'⟩ := sl
          obtain rfl : reports' = reports := hreports
          cases reports' with
          | error e => exact ⟨rfl, h''⟩
          | ok => exact ⟨rfl, h''⟩

/-- **Twins run alike**, for any number of ticks. -/
theorem run (code : AgentCode σ) (h : Twin k l) (maxTicks : Int) :
    (l.run code maxTicks).2 = (k.run code maxTicks).2
      ∧ Twin (k.run code maxTicks).1 (l.run code maxTicks).1 := by
  unfold Kernel.run
  split
  · exact ⟨rfl, h⟩
  · exact (Twin.stopped h _).runLoop code _

end Twin

end Kernel

end TitoOS
