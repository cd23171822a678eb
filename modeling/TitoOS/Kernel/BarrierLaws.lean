import TitoOS.Kernel.ContextTick

/-!
# Laws of the barrier

Each of the three passes at the end of a tick (restart, escalate, reclaim) in
closed form: what it does to every object and to every mailbox, and which
report it produces. Since every agent is scheduled at most once, a pass acts on
distinct objects and its effect does not depend on the order of the casualties.
-/

namespace TitoOS

variable {σ : Type}

namespace Kernel

/-! ## Restarts -/

/-- The agent object after a restart that went well. -/
def restarted (code : AgentCode σ) (a : Agent σ) : Agent σ :=
  { a with
    restarts := a.restarts + 1
    body := (code.restartOf { a with restarts := a.restarts + 1 }).1
    state := .ready }

/-- `on_restart` of the agent, called when it is restarted, returns normally. -/
def restartReturns (code : AgentCode σ) (a : Agent σ) : Prop :=
  (code.restartOf { a with restarts := a.restarts + 1 }).2 = none

/-- The job's agent is one the supervision pass restarts. -/
def willRestart (k : Kernel σ) (job : Job σ) : Bool := (k.objects[job.ref]?).any mayRestart

/-- What the supervision pass puts back at the front of the mailbox of `x`. -/
def requeued (k : Kernel σ) (casualties : List (Job σ)) (x : String) : List Message :=
  ((casualties.find? fun job => job.name = x && k.willRestart job).map Job.handedBack).getD []

/-- The jobs lead to objects of their names, and to distinct ones. -/
structure Jobs (k : Kernel σ) (jobs : List (Job σ)) : Prop where
  refs : (jobs.map Job.ref).Nodup
  names : (jobs.map Job.name).Nodup
  object : ∀ job ∈ jobs, ∃ a, k.objects[job.ref]? = some a ∧ a.name = job.name

theorem Jobs.sublist {k : Kernel σ} {l m : List (Job σ)} (h : k.Jobs m) (hl : l.Sublist m) :
    k.Jobs l where
  refs := h.refs.sublist (hl.map _)
  names := h.names.sublist (hl.map _)
  object := fun job hj => h.object job (hl.subset hj)

theorem supervise_of_not_mayRestart {code : AgentCode σ} {k : Kernel σ} {job : Job σ}
    (h : k.willRestart job = false) : k.supervise code job = (k, .ok false) := by
  unfold supervise
  cases ho : k.objects[job.ref]? with
  | none => rfl
  | some a =>
    have hm : mayRestart a = false := by simpa [willRestart, ho] using h
    simp [hm]

theorem supervise_of_mayRestart {code : AgentCode σ} {k : Kernel σ} {job : Job σ} {a : Agent σ}
    (ho : k.objects[job.ref]? = some a) (hm : mayRestart a = true)
    (hr : restartReturns code a) :
    k.supervise code job =
      ({ k.modifyAgent job.ref (fun _ => restarted code a) with
          bus := k.bus.requeue a.name job.handedBack }, .ok true) := by
  unfold restartReturns at hr
  unfold supervise restarted
  simp only [ho, hm, if_true]
  generalize code.restartOf { a with restarts := a.restarts + 1 } = r at hr ⊢
  obtain ⟨body, e⟩ := r
  cases hr
  rfl

/-- What the supervision pass does when every `on_restart` it calls returns. -/
structure Supervised (code : AgentCode σ) (k : Kernel σ) (casualties : List (Job σ))
    (k' : Kernel σ) (names : List String) : Prop where
  agents : k'.agents = k.agents
  tick : k'.tick = k.tick
  errors : k'.errors = k.errors
  stopReason : k'.stopReason = k.stopReason
  length : k'.objects.length = k.objects.length
  keys : k'.bus.mailboxes.keys = k.bus.mailboxes.keys
  casualty : ∀ job ∈ casualties, ∀ a, k.objects[job.ref]? = some a →
    k'.objects[job.ref]? = some (if mayRestart a then restarted code a else a)
  others : ∀ i, (∀ job ∈ casualties, job.ref ≠ i) → k'.objects[i]? = k.objects[i]?
  box : ∀ x, k'.bus.mailboxes.get? x
    = (k.bus.mailboxes.get? x).map (k.requeued casualties x ++ ·)
  names : names = (casualties.filter k.willRestart).map Job.name

/-- The first casualty of the supervision pass. -/
theorem supervised_singleton {code : AgentCode σ} {k : Kernel σ} {job : Job σ} {a : Agent σ}
    (ho : k.objects[job.ref]? = some a) (hname : a.name = job.name)
    (hr : mayRestart a = true → restartReturns code a) :
    ∃ k', k.supervise code job = (k', .ok (k.willRestart job))
      ∧ Supervised code k [job] k' (if k.willRestart job then [job.name] else []) := by
  have hw : k.willRestart job = mayRestart a := by simp [willRestart, ho]
  cases hm : mayRestart a with
  | false =>
    refine ⟨k, by rw [supervise_of_not_mayRestart (hw.trans hm), hw.trans hm],
      rfl, rfl, rfl, rfl, rfl, rfl, ?_, fun _ _ => rfl, ?_, by simp [hw, hm]⟩
    · intro job' hj b hb
      obtain rfl := List.mem_singleton.mp hj
      rw [ho] at hb
      cases hb
      simp [hm, ho]
    · intro x
      simp [requeued, hw, hm]
  | true =>
    rw [hw, hm]
    refine ⟨_, supervise_of_mayRestart ho hm (hr hm),
      rfl, rfl, rfl, rfl, by simp, by simp, ?_, ?_, ?_, by simp [hw, hm]⟩
    · intro job' hj b hb
      obtain rfl := List.mem_singleton.mp hj
      rw [ho] at hb
      cases hb
      simp [getElem?_modifyAgent, ho, hm]
    · intro i hi
      have hne : i ≠ job.ref := fun he => hi job (by simp) he.symm
      simp [getElem?_modifyAgent, hne]
    · intro x
      by_cases hx : x = job.name
      · subst hx
        simp [requeued, hw, hm, hname]
      · simp [requeued, hname, hx, Ne.symm hx]

/-- The first casualty leaves the objects of the others alone. -/
theorem Jobs.others_of_supervised {code : AgentCode σ} {k k1 : Kernel σ} {job : Job σ}
    {rest : List (Job σ)} {l : List String} (hjobs : k.Jobs (job :: rest))
    (h : Supervised code k [job] k1 l) :
    ∀ job' ∈ rest, k1.objects[job'.ref]? = k.objects[job'.ref]? := by
  intro job' hm
  refine h.others _ fun j hj he => ?_
  obtain rfl := List.mem_singleton.mp hj
  have hrefs := hjobs.refs
  simp only [List.map_cons, List.nodup_cons] at hrefs
  exact hrefs.1 (he ▸ List.mem_map_of_mem hm)

theorem Jobs.rest_of_supervised {code : AgentCode σ} {k k1 : Kernel σ} {job : Job σ}
    {rest : List (Job σ)} {l : List String} (hjobs : k.Jobs (job :: rest))
    (h : Supervised code k [job] k1 l) : k1.Jobs rest where
  refs := (hjobs.sublist (List.sublist_cons_self job rest)).refs
  names := (hjobs.sublist (List.sublist_cons_self job rest)).names
  object := fun job' hm => by
    rw [hjobs.others_of_supervised h job' hm]
    exact hjobs.object job' (by simp [hm])

/-- What two passes in a row do is what one pass over both lists does. -/
theorem Supervised.trans {code : AgentCode σ} {k k1 k2 : Kernel σ} {job : Job σ}
    {rest : List (Job σ)} {l m : List String} (hjobs : k.Jobs (job :: rest))
    (h1 : Supervised code k [job] k1 l) (h2 : Supervised code k1 rest k2 m) :
    Supervised code k (job :: rest) k2 (l ++ m) := by
  have hrefs := hjobs.refs
  have hnames := hjobs.names
  simp only [List.map_cons, List.nodup_cons] at hrefs hnames
  have hne : ∀ job' ∈ rest, job'.ref ≠ job.ref := fun job' hm he =>
    hrefs.1 (he ▸ List.mem_map_of_mem hm)
  have hsame := hjobs.others_of_supervised h1
  have hwill : ∀ job' ∈ rest, k1.willRestart job' = k.willRestart job' := fun job' hm => by
    rw [willRestart, hsame job' hm, willRestart]
  constructor
  case agents => exact h2.agents.trans h1.agents
  case tick => exact h2.tick.trans h1.tick
  case errors => exact h2.errors.trans h1.errors
  case stopReason => exact h2.stopReason.trans h1.stopReason
  case length => exact h2.length.trans h1.length
  case keys => exact h2.keys.trans h1.keys
  case casualty =>
    intro job' hm a ha
    rcases List.mem_cons.mp hm with rfl | hm'
    · rw [h2.others _ hne, h1.casualty job' (by simp) a ha]
    · rw [h2.casualty job' hm' a (by rw [hsame job' hm', ha])]
  case others =>
    intro i hi
    rw [h2.others i fun job' hm => hi job' (by simp [hm]),
      h1.others i fun job' hm => hi job' (by simp [List.mem_singleton.mp hm])]
  case box =>
    intro x
    have hfind : (rest.find? fun job' => job'.name = x && k1.willRestart job')
        = rest.find? fun job' => job'.name = x && k.willRestart job' := by
      rw [← List.head?_filter, ← List.head?_filter]
      exact congrArg _ (List.filter_congr fun job' hm => by rw [hwill job' hm])
    rw [h2.box, h1.box, requeued, hfind, Option.map_map]
    congr 1
    funext mailbox
    by_cases hx : (decide (job.name = x) && k.willRestart job) = true
    · -- the first casualty is put back, and no other has its name
      have hnone : (rest.find? fun job' => job'.name = x && k.willRestart job') = none := by
        rw [List.find?_eq_none]
        intro job' hm hp
        simp only [Bool.and_eq_true, decide_eq_true_eq] at hp hx
        exact hnames.1 (hx.1 ▸ hp.1 ▸ List.mem_map_of_mem hm)
      simp [requeued, hx, hnone]
    · simp [requeued, hx]
  case names =>
    have hfilter : rest.filter k1.willRestart = rest.filter k.willRestart :=
      List.filter_congr fun job' hm => hwill job' hm
    rw [h1.names, h2.names, hfilter]
    cases hw : k.willRestart job <;> simp [hw]

/-- **The law of the supervision pass.** -/
theorem superviseAll_ok {code : AgentCode σ} {casualties : List (Job σ)} {k : Kernel σ}
    (hjobs : k.Jobs casualties)
    (hr : ∀ job ∈ casualties, ∀ a, k.objects[job.ref]? = some a → mayRestart a = true →
      restartReturns code a) :
    ∃ k' names, k.superviseAll code casualties = (k', .ok names)
      ∧ Supervised code k casualties k' names := by
  induction casualties generalizing k with
  | nil =>
    refine ⟨k, [], rfl, rfl, rfl, rfl, rfl, rfl, rfl, ?_, fun _ _ => rfl, ?_, rfl⟩
    · intro job hj; cases hj
    · intro x; simp [requeued]
  | cons job rest ih =>
    obtain ⟨a, ho, hname⟩ := hjobs.object job (by simp)
    obtain ⟨k1, hstep, hs1⟩ := supervised_singleton ho hname (hr job (by simp) a ho)
    have hsame := hjobs.others_of_supervised hs1
    obtain ⟨k', names, hrest, hs⟩ := ih (hjobs.rest_of_supervised hs1) (fun job' hm b hb => by
      rw [hsame job' hm] at hb
      exact hr job' (by simp [hm]) b hb)
    refine ⟨k', _, ?_, hs1.trans hjobs hs⟩
    rw [superviseAll, hstep]
    simp only [hrest]
    cases k.willRestart job <;> rfl

/-- Conversely, if the pass does not raise, every `on_restart` it called
returned. -/
theorem restartReturns_of_superviseAll {code : AgentCode σ} {casualties : List (Job σ)}
    {k k' : Kernel σ} {names : List String} (hjobs : k.Jobs casualties)
    (h : k.superviseAll code casualties = (k', .ok names)) :
    ∀ job ∈ casualties, ∀ a, k.objects[job.ref]? = some a → mayRestart a = true →
      restartReturns code a := by
  induction casualties generalizing k names with
  | nil => intro job hj; cases hj
  | cons job rest ih =>
    obtain ⟨a, ho, hname⟩ := hjobs.object job (by simp)
    have hfirst : mayRestart a = true → restartReturns code a := by
      intro hm
      unfold restartReturns
      cases he : (code.restartOf { a with restarts := a.restarts + 1 }).2 with
      | none => rfl
      | some e =>
        -- a hook that raises leaves the loop, which has come to its end
        have hraise : ∃ k1, k.supervise code job = (k1, .error e) := by
          unfold supervise
          simp only [ho, hm, if_true]
          generalize code.restartOf { a with restarts := a.restarts + 1 } = r at he
          obtain ⟨body, e'⟩ := r
          cases he
          exact ⟨_, rfl⟩
        obtain ⟨k1, hk1⟩ := hraise
        rw [superviseAll, hk1] at h
        cases h
    obtain ⟨k1, hstep, hs1⟩ := supervised_singleton ho hname hfirst
    have hsame := hjobs.others_of_supervised hs1
    rw [superviseAll, hstep] at h
    simp only at h
    split at h
    · cases h
    · rename_i k2 names' hrest
      cases h
      intro job' hm b hb
      rcases List.mem_cons.mp hm with rfl | hm'
      · rw [ho] at hb
        cases hb
        exact hfirst
      · exact ih (hjobs.rest_of_supervised hs1) hrest job' hm' b (by rw [hsame job' hm', hb])

/-! ## Escalations -/

/-- The messages the escalation pass posts, in registration order. -/
def notices (k : Kernel σ) (casualties : List (Job σ)) : List Message :=
  casualties.filterMap fun job => if k.hasFailed job.ref then k.notice job.ref else none

@[simp] theorem notice_bus (k : Kernel σ) (bus : MessageBus) (ref : Nat) :
    Kernel.notice { k with bus } ref = k.notice ref := rfl

@[simp] theorem hasFailed_bus (k : Kernel σ) (bus : MessageBus) (ref : Nat) :
    Kernel.hasFailed { k with bus } ref = k.hasFailed ref := rfl

@[simp] theorem notices_bus (k : Kernel σ) (bus : MessageBus) (casualties : List (Job σ)) :
    Kernel.notices { k with bus } casualties = k.notices casualties := rfl

/-- The message `_escalate` posts about `a` to its parent. -/
def childFailed (parent : String) (a : Agent σ) : Message where
  sender := a.name
  recipient := parent
  payload := CHILD_FAILED
  metadata := Dict.ofList [("child", .str a.name), ("restarts", .int a.restarts)]

theorem notice_eq_some_iff {k : Kernel σ} {ref : Nat} {m : Message} :
    k.notice ref = some m ↔ ∃ a parent p, k.objects[ref]? = some a ∧ a.parent = some parent
      ∧ k.agent? parent = some p ∧ p.isAlive = true ∧ m = childFailed parent a := by
  simp only [notice, Option.bind_eq_bind, Option.bind_eq_some_iff]
  constructor
  · rintro ⟨a, ha, parent, hparent, p, hp, hm⟩
    split at hm
    · exact ⟨a, parent, p, ha, hparent, hp, ‹_›, (Option.some.inj hm).symm⟩
    · cases hm
  · rintro ⟨a, parent, p, ha, hparent, hp, halive, rfl⟩
    exact ⟨a, ha, parent, hparent, p, hp, by simp [halive, childFailed]⟩

theorem mem_notices {k : Kernel σ} {casualties : List (Job σ)} {m : Message} :
    m ∈ k.notices casualties ↔ ∃ job ∈ casualties, k.hasFailed job.ref = true
      ∧ ∃ a parent p, k.objects[job.ref]? = some a ∧ a.parent = some parent
        ∧ k.agent? parent = some p ∧ p.isAlive = true ∧ m = childFailed parent a := by
  simp only [notices, List.mem_filterMap]
  refine exists_congr fun job => and_congr_right fun _ => ?_
  by_cases hf : k.hasFailed job.ref = true
  · simp [hf, notice_eq_some_iff]
  · simp [hf]

theorem notices_cons (k : Kernel σ) (job : Job σ) (rest : List (Job σ)) :
    k.notices (job :: rest)
      = (if k.hasFailed job.ref then k.notice job.ref else none).toList ++ k.notices rest := by
  rw [notices, List.filterMap_cons]
  split <;> simp_all [notices]

/-- **The law of the escalation pass**, when the bus accepts every notice: only
mailboxes change, and each grows by the notices meant for it. -/
theorem escalateAll_ok {casualties : List (Job σ)} {k : Kernel σ}
    (hmail : ∀ m ∈ k.notices casualties, k.bus.Accepts m) :
    ∃ bus, k.escalateAll casualties = ({ k with bus }, none)
      ∧ bus.mailboxes.keys = k.bus.mailboxes.keys
      ∧ (∀ x, bus.mailboxes.get? x
          = (k.bus.mailboxes.get? x).map (· ++ deliveredTo x (k.escalationLog casualties)))
      ∧ ∀ x, deliveredTo x (k.escalationLog casualties)
          = if x ∈ k.bus.mailboxes.keys
            then (k.notices casualties).filter fun m => decide (m.addresses x) else [] := by
  induction casualties generalizing k with
  | nil => exact ⟨k.bus, rfl, rfl, by simp [escalationLog], by simp [escalationLog, notices]⟩
  | cons job rest ih =>
    by_cases hf : k.hasFailed job.ref = true
    · cases hn : k.notice job.ref with
      | none =>
        obtain ⟨bus, h1, h2, h3, h4⟩ := ih (k := k) (fun m hm => hmail m (by
          simpa [notices, hf, hn] using hm))
        refine ⟨bus, ?_, h2, ?_, ?_⟩
        · simp [escalateAll, hf, escalate, hn, h1]
        · simpa [escalationLog, hf, hn, escalate] using h3
        · simpa [escalationLog, hf, hn, escalate, notices] using h4
      | some m =>
        -- the names do not change, so what was accepted still is after this one
        obtain ⟨bus1, hsend⟩ := MessageBus.send_ok_iff.mpr (hmail m (by simp [notices, hf, hn]))
        have hkeys := MessageBus.keys_send hsend
        have hesc : k.escalate job.ref = .ok { k with bus := bus1 } := by
          simp [escalate, hn, hsend, Except.map]
        obtain ⟨bus, h1, h2, h3, h4⟩ := ih (k := { k with bus := bus1 }) (fun m' hm' =>
          (hmail m' (by simpa [notices_cons, hf, hn] using .inr hm')).of_keys hkeys)
        have hlog : k.escalationLog (job :: rest) = k.bus.deliveries m
            ++ Kernel.escalationLog rest { k with bus := bus1 } := by
          simp [escalationLog, hf, hn, hesc]
        refine ⟨bus, ?_, h2.trans hkeys, ?_, ?_⟩
        · simp [escalateAll, hf, hesc, h1]
        · intro x
          rw [h3, hlog, deliveredTo_append]
          show ((bus1.mailboxes.get? x).map _) = _
          rw [MessageBus.get?_send hsend]
          cases k.bus.mailboxes.get? x <;> simp
        · intro x
          rw [hlog, deliveredTo_append, h4, MessageBus.deliveredTo_deliveries]
          show _ ++ (if x ∈ bus1.mailboxes.keys then _ else _) = _
          rw [hkeys]
          have hcons : k.notices (job :: rest) = m :: k.notices rest := by
            simp [notices_cons, hf, hn]
          rw [hcons, notices_bus]
          by_cases hx : x ∈ k.bus.mailboxes.keys
          · by_cases ha : m.addresses x <;> simp [hx, ha]
          · simp [hx]
    · obtain ⟨bus, h1, h2, h3, h4⟩ := ih (k := k) (fun m hm => hmail m (by
        simpa [notices, hf] using hm))
      exact ⟨bus, by simp [escalateAll, hf, h1], h2, by simpa [escalationLog, hf] using h3,
        by simpa [escalationLog, hf, notices] using h4⟩

/-- Conversely, if the pass does not raise, the bus accepted every notice. -/
theorem accepts_of_escalateAll {casualties : List (Job σ)} {k k' : Kernel σ}
    (h : k.escalateAll casualties = (k', none)) : ∀ m ∈ k.notices casualties, k.bus.Accepts m := by
  induction casualties generalizing k with
  | nil => simp [notices]
  | cons job rest ih =>
    rw [escalateAll] at h
    rw [notices_cons]
    by_cases hf : k.hasFailed job.ref = true
    · rw [if_pos hf] at h
      cases hn : k.notice job.ref with
      | none =>
        rw [escalate, hn] at h
        simpa [hf, hn] using ih h
      | some m =>
        cases hsend : k.bus.send m with
        | error e => simp [escalate, hn, hsend, Except.map] at h
        | ok bus1 =>
          simp only [escalate, hn, hsend, Except.map] at h
          have hrest := ih h
          simp only [hf, if_true, Option.toList_some, List.cons_append, List.nil_append,
            List.mem_cons, forall_eq_or_imp]
          refine ⟨MessageBus.send_ok_iff.mp ⟨bus1, hsend⟩, fun m' hm' => ?_⟩
          exact (hrest m' hm').of_keys (MessageBus.keys_send hsend).symm
    · rw [if_neg hf] at h
      simpa [hf] using ih h

/-! ## Reclamation -/

/-- The job's agent is finished. -/
def isFinishedAt (k : Kernel σ) (job : Job σ) : Bool :=
  (k.objects[job.ref]?).any fun a => a.state.isFinished

/-- **The law of the reclamation pass**: only mailboxes change, and exactly those
of the finished agents among the jobs disappear. -/
theorem reclaimAll (jobs : List (Job σ)) (k : Kernel σ)
    (hobj : ∀ job ∈ jobs, ∀ a, k.objects[job.ref]? = some a → a.name = job.name) :
    ∃ bus, jobs.foldl reclaim k = { k with bus }
      ∧ ∀ x, bus.mailboxes.get? x
          = if ∃ job ∈ jobs, job.name = x ∧ k.isFinishedAt job = true then none
            else k.bus.mailboxes.get? x := by
  induction jobs generalizing k with
  | nil => exact ⟨k.bus, rfl, by simp⟩
  | cons job rest ih =>
    obtain ⟨bus1, hstep, hbox1⟩ : ∃ bus1, k.reclaim job = { k with bus := bus1 }
        ∧ ∀ x, bus1.mailboxes.get? x = if job.name = x ∧ k.isFinishedAt job = true then none
            else k.bus.mailboxes.get? x := by
      unfold reclaim isFinishedAt
      cases ho : k.objects[job.ref]? with
      | none => exact ⟨k.bus, rfl, by simp⟩
      | some a =>
        have hname := hobj job (by simp) a ho
        cases hf : a.state.isFinished with
        | false => exact ⟨k.bus, by simp [hf], by simp [hf]⟩
        | true =>
          refine ⟨k.bus.unregister a.name, by simp [hf], fun x => ?_⟩
          simp [hf, hname, eq_comm]
    -- no object changes, so who is finished stays the same
    obtain ⟨bus, hfold, hbox⟩ := ih { k with bus := bus1 } (fun job' hm => hobj job' (by simp [hm]))
    refine ⟨bus, by rw [List.foldl_cons, hstep, hfold], fun x => ?_⟩
    rw [hbox]
    show (if ∃ job' ∈ rest, job'.name = x ∧ k.isFinishedAt job' = true then none
      else bus1.mailboxes.get? x) = _
    rw [hbox1]
    by_cases h1 : job.name = x ∧ k.isFinishedAt job = true
    · simp [h1]
    · by_cases h2 : ∃ job' ∈ rest, job'.name = x ∧ k.isFinishedAt job' = true
      · rw [if_pos h2, if_pos]
        obtain ⟨job', hm, h⟩ := h2
        exact ⟨job', by simp [hm], h⟩
      · rw [if_neg h2, if_neg h1, if_neg]
        rintro ⟨job', hm, h⟩
        rcases List.mem_cons.mp hm with rfl | hm'
        · exact h1 h
        · exact h2 ⟨job', hm', h⟩

/-! ## What the barrier never does

It may raise halfway, but all it ever changes in an agent object is a restart. -/

/-- What every restart keeps, the supervision pass keeps. -/
theorem superviseAll_induction {code : AgentCode σ} {P : Kernel σ → Prop} {jobs : List (Job σ)}
    (hone : ∀ u, ∀ job ∈ jobs, P u → P (u.supervise code job).1) {k : Kernel σ} (h : P k) :
    P (k.superviseAll code jobs).1 := by
  induction jobs generalizing k with
  | nil => exact h
  | cons job rest ih =>
    have hfirst := hone k job List.mem_cons_self h
    rw [superviseAll]
    generalize k.supervise code job = supervised at hfirst ⊢
    obtain ⟨u, e | restarted⟩ := supervised
    · exact hfirst
    · have hrest := ih (fun u job hjob => hone u job (List.mem_cons_of_mem _ hjob)) hfirst
      dsimp only at hrest ⊢
      generalize u.superviseAll code rest = result at hrest ⊢
      obtain ⟨v, e | names⟩ := result
      · exact hrest
      · exact hrest


/-- `k'` differs from `k` in mailboxes and in restarts, finished or not, of the
agents of `jobs`. -/
structure Kept (jobs : List (Job σ)) (k k' : Kernel σ) : Prop where
  agents : k'.agents = k.agents
  errors : k'.errors = k.errors
  stopReason : k'.stopReason = k.stopReason
  object : ∀ i, k'.objects[i]? = k.objects[i]?
    ∨ (∃ job ∈ jobs, job.ref = i) ∧ ∃ a a', k.objects[i]? = some a ∧ k'.objects[i]? = some a'
      ∧ a'.name = a.name ∧ mayRestart a = true ∧ (a'.state = .ready ∨ a'.state = a.state)

namespace Kept

variable {code : AgentCode σ} {jobs : List (Job σ)} {k k1 k2 : Kernel σ}

theorem of_bus (jobs : List (Job σ)) (k : Kernel σ) (bus : MessageBus) :
    Kept jobs k { k with bus } := ⟨rfl, rfl, rfl, fun _ => .inl rfl⟩

theorem mono (h : Kept jobs k k1) {more : List (Job σ)} (hsub : ∀ job ∈ jobs, job ∈ more) :
    Kept more k k1 :=
  { h with object := fun i => (h.object i).imp id fun ⟨⟨job, hj, href⟩, hrest⟩ =>
      ⟨⟨job, hsub job hj, href⟩, hrest⟩ }

theorem trans (h : Kept jobs k k1) (h' : Kept jobs k1 k2) : Kept jobs k k2 where
  agents := h'.agents.trans h.agents
  errors := h'.errors.trans h.errors
  stopReason := h'.stopReason.trans h.stopReason
  object := by
    intro i
    rcases h.object i with hsame | ⟨hjob, a, a1, ha, ha1, hname, hmay, hstate⟩
    · rw [← hsame]
      exact h'.object i
    · right
      rcases h'.object i with hsame | ⟨-, b, a2, hb, ha2, hname', -, hstate'⟩
      · exact ⟨hjob, a, a1, ha, hsame.trans ha1, hname, hmay, hstate⟩
      · rw [ha1] at hb
        cases hb
        refine ⟨hjob, a, a2, ha, ha2, hname'.trans hname, hmay, ?_⟩
        rcases hstate' with hready | hsame
        · exact .inl hready
        · rw [hsame]
          exact hstate

theorem supervise (code : AgentCode σ) (k : Kernel σ) (job : Job σ) :
    Kept [job] k (k.supervise code job).1 := by
  unfold Kernel.supervise
  cases ho : k.objects[job.ref]? with
  | none => exact .of_bus ..
  | some a =>
    cases hm : mayRestart a with
    | false => simpa [hm] using .of_bus ..
    | true =>
      have hone : ∀ a' : Agent σ, a'.name = a.name → (a'.state = .ready ∨ a'.state = a.state) →
          ∀ bus, Kept [job] k { k.modifyAgent job.ref (fun _ => a') with bus } := by
        intro a' hname hstate bus
        refine ⟨rfl, rfl, rfl, fun i => ?_⟩
        show (k.modifyAgent job.ref fun _ => a').objects[i]? = _ ∨ _
        rw [getElem?_modifyAgent]
        by_cases hi : i = job.ref
        · subst hi
          exact .inr ⟨⟨job, by simp, rfl⟩, a, a', ho, by simp [ho],
            hname, hm, hstate⟩
        · exact .inl (by simp [hi])
      simp only [hm, if_true]
      rcases code.restartOf { a with restarts := a.restarts + 1 } with ⟨body, e | e⟩
      · exact hone { a with restarts := a.restarts + 1, body, state := .ready } rfl (.inl rfl) _
      · exact hone { a with restarts := a.restarts + 1, body } rfl (.inr rfl) k.bus

theorem superviseAll (code : AgentCode σ) (jobs : List (Job σ)) (k : Kernel σ) :
    Kept jobs k (k.superviseAll code jobs).1 := by
  refine superviseAll_induction (P := Kept jobs k) (fun u job hjob hu => ?_) (.of_bus ..)
  exact hu.trans ((supervise code u job).mono (by simpa using hjob))

/-- The escalation pass works on the bus, and opens and closes no mailbox. -/
theorem escalateAll (jobs : List (Job σ)) (k : Kernel σ) :
    ∃ bus, (k.escalateAll jobs).1 = { k with bus }
      ∧ bus.mailboxes.keys = k.bus.mailboxes.keys := by
  induction jobs generalizing k with
  | nil => exact ⟨_, rfl, rfl⟩
  | cons job rest ih =>
    rw [Kernel.escalateAll]
    split
    · cases he : k.escalate job.ref with
      | error e => exact ⟨_, rfl, rfl⟩
      | ok k1 =>
        obtain ⟨bus, hbus, hkeys⟩ := ih k1
        have hk1 : ∃ bus, k1 = { k with bus } ∧ bus.mailboxes.keys = k.bus.mailboxes.keys := by
          unfold Kernel.escalate at he
          split at he
          · cases he
            exact ⟨_, rfl, rfl⟩
          · rename_i m _
            cases hsend : k.bus.send m with
            | error e => simp [hsend, Except.map] at he
            | ok bus =>
              simp only [hsend, Except.map, Except.ok.injEq] at he
              exact ⟨bus, he.symm, MessageBus.keys_send hsend⟩
        obtain ⟨bus1, rfl, hkeys1⟩ := hk1
        exact ⟨bus, hbus, hkeys.trans hkeys1⟩
    · exact ih k

theorem reclaimAll (jobs : List (Job σ)) (k : Kernel σ) :
    ∃ bus, jobs.foldl Kernel.reclaim k = { k with bus } := by
  induction jobs generalizing k with
  | nil => exact ⟨_, rfl⟩
  | cons job rest ih =>
    obtain ⟨bus, hbus⟩ := ih (k.reclaim job)
    have hone : ∃ bus, k.reclaim job = { k with bus } := by
      unfold Kernel.reclaim
      split
      · split
        · exact ⟨_, rfl⟩
        · exact ⟨_, rfl⟩
      · exact ⟨_, rfl⟩
    obtain ⟨bus1, hbus1⟩ := hone
    rw [List.foldl_cons, hbus, hbus1]
    exact ⟨bus, rfl⟩

end Kept

/-- After the supervision pass the barrier only works on the bus. -/
theorem barrier_fst (code : AgentCode σ) (waiting : List String) (t : TickState σ) :
    ∃ bus, (t.barrier code waiting).1
      = { (t.kernel.superviseAll code t.casualties).1 with bus } := by
  rw [TickState.barrier]
  obtain ⟨k, e | restarted⟩ := t.kernel.superviseAll code t.casualties
  · exact ⟨k.bus, rfl⟩
  · obtain ⟨bus, hescalated, -⟩ := Kept.escalateAll t.casualties k
    dsimp only
    generalize k.escalateAll t.casualties = escalated at hescalated ⊢
    obtain ⟨k', _ | e⟩ := escalated
    · obtain rfl : k' = { k with bus } := hescalated
      exact Kept.reclaimAll t.jobs { k with bus }
    · exact ⟨bus, hescalated⟩

/-- The supervision pass opens and closes no mailbox. -/
theorem keys_superviseAll (code : AgentCode σ) (jobs : List (Job σ)) (k : Kernel σ) :
    (k.superviseAll code jobs).1.bus.mailboxes.keys = k.bus.mailboxes.keys := by
  refine superviseAll_induction
    (P := fun u => u.bus.mailboxes.keys = k.bus.mailboxes.keys) (fun u job _ hu => ?_) rfl
  refine Eq.trans ?_ hu
  unfold supervise
  split
  · rfl
  · split
    · dsimp only
      split
      · rfl
      · exact MessageBus.keys_requeue ..
    · rfl

/-- A barrier that raises has opened and closed no mailbox. -/
theorem keys_of_barrier_error {code : AgentCode σ} {waiting : List String} {t : TickState σ}
    {k' : Kernel σ} {e : Exc} (h : t.barrier code waiting = (k', .error e)) :
    k'.bus.mailboxes.keys = t.kernel.bus.mailboxes.keys := by
  have hkeys := keys_superviseAll code t.casualties t.kernel
  rw [TickState.barrier] at h
  split at h
  · rename_i hsup
    cases h
    rwa [hsup] at hkeys
  · rename_i k1 names hsup
    rw [hsup] at hkeys
    obtain ⟨bus, hescalated, hsame⟩ := Kept.escalateAll t.casualties k1
    split at h
    · rename_i hesc
      cases h
      rw [hesc] at hescalated
      obtain rfl : k' = { k1 with bus } := hescalated
      exact hsame.trans hkeys
    · cases h

section

variable {code : AgentCode σ} {I : Body σ → Prop} {i : Nat}

/-- What `on_restart` keeps of an agent's own state, the supervision pass keeps. -/
theorem superviseAll_body (hhook : ∀ a : Agent σ, I a.body → I (code.restartOf a).1)
    (casualties : List (Job σ)) {k : Kernel σ} {a : Agent σ} (ha : k.objects[i]? = some a)
    (hI : I a.body) :
    ∃ a', (k.superviseAll code casualties).1.objects[i]? = some a' ∧ I a'.body := by
  refine superviseAll_induction (P := fun u => ∃ a, u.objects[i]? = some a ∧ I a.body)
    (fun u job _ hu => ?_) ⟨a, ha, hI⟩
  obtain ⟨a, ha, hI⟩ := hu
  unfold supervise
  cases ho : u.objects[job.ref]? with
  | none => exact ⟨a, ha, hI⟩
  | some b =>
    simp only
    split
    · have hhook' : i = job.ref →
          I (code.restartOf { b with restarts := b.restarts + 1 }).1 := by
        rintro rfl
        rw [ha] at ho
        cases ho
        exact hhook _ hI
      split <;> rename_i heq <;> rw [heq] at hhook' <;>
        simp only [getElem?_modifyAgent] <;> by_cases hi : i = job.ref
      all_goals first
        | exact ⟨_, by rw [if_pos hi, ha]; rfl, hhook' hi⟩
        | exact ⟨a, by rw [if_neg hi, ha], hI⟩
    · exact ⟨a, ha, hI⟩

/-- What `on_restart` keeps of an agent's own state, the barrier keeps. -/
theorem barrier_body (hhook : ∀ a : Agent σ, I a.body → I (code.restartOf a).1)
    (waiting : List String) {t : TickState σ} {a : Agent σ}
    (ha : t.kernel.objects[i]? = some a) (hI : I a.body) :
    ∃ a', (t.barrier code waiting).1.objects[i]? = some a' ∧ I a'.body := by
  obtain ⟨bus, hbarrier⟩ := barrier_fst code waiting t
  rw [hbarrier]
  exact superviseAll_body hhook t.casualties ha hI

end

/-- **Whatever becomes of the barrier**, it keeps the registry, the error log,
the stop reason and all agents but those it restarts. -/
theorem kept_barrier (code : AgentCode σ) (waiting : List String) (t : TickState σ) :
    Kept t.casualties t.kernel (t.barrier code waiting).1 := by
  obtain ⟨bus, hbarrier⟩ := barrier_fst code waiting t
  rw [hbarrier]
  exact (Kept.superviseAll code t.casualties t.kernel).trans (.of_bus ..)

end Kernel

end TitoOS
