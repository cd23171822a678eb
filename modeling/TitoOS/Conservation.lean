import TitoOS.Kernel.Stock

/-!
# What agents conserve, the kernel conserves

A quantity that the code of each agent deals with correctly (`AgentCode.Keeps`)
is accounted for in whole runs, on any backend, in any order of actions and
across failures and restarts (`agents_keep_accounts`): what the agents hold and
what their mailboxes carry is what has entered, but for the mail of agents that
finished and what the steps used up.
-/

namespace TitoOS

variable {σ M : Type}

/-- The jobs of a tick whose agents are finished after it. -/
def TickState.ended (code : AgentCode σ) (t : TickState σ) : List (Job σ) :=
  t.jobs.filter fun job => (t.kernel.objects[job.ref]?).any fun a =>
    !(job.concluded code a).isAlive

namespace Stock

section

variable [AddCommMonoid M] (q : Stock σ M)

/-- What the mailboxes carry. -/
def mail (k : Kernel σ) : M :=
  ∑ x ∈ k.bus.mailboxes.keys.toFinset, Tally.box q.carried x (k.inboxOf x)

/-- All there is of the quantity. -/
def total (k : Kernel σ) : M := q.holdings k + q.mail k

/-- What an event brings in: what a new agent holds, what is posted from outside,
what the steps that return make, and what the notices of failures carry. -/
def entered (code : AgentCode σ) : Event σ → M
  | .registered a p => q.held (a.linked p)
  | .posted log => Tally.log q.carried log
  | .ticked t _ _ =>
      ((t.jobs.filter fun job => job.phase.isReturned).map fun job =>
        q.made job.name t.kernel.tick).sum
      + Tally.log q.carried (t.barrierLog code)

/-- What is lost in an event with the mailboxes of the agents that finish: the
inbox of a failed step, and what was delivered in the tick. -/
def lost (code : AgentCode σ) : Event σ → M
  | .ticked t log _ => ((t.ended code).map fun job =>
      (if job.phase.isFailed then Tally.box q.carried job.name job.inbox else 0)
        + Tally.box q.carried job.name (deliveredTo job.name log)).sum
  | _ => 0

/-- What the steps of an event use up. -/
def used (e : Event σ) : M := e.jobs.length • q.spent

/-- The kernel is between ticks, its live agents fit, and those that are to last
are alive. -/
structure Holds (k : Kernel σ) : Prop where
  sound : k.Sound
  fits : ∀ x a, k.agent? x = some a → a.isAlive = true → q.fits a
  lasting : ∀ x, q.lasting x → k.isLive x = true

end

end Stock

/-! ## Between ticks -/

section

variable [AddCommMonoid M] {q : Stock σ M} {k k' : Kernel σ}

/-- A log for existing mailboxes weighs what they have received. -/
theorem Stock.tally_delivered (q : Stock σ M) {log : List Delivery} {names : Finset String}
    (h : ∀ d ∈ log, d.1 ∈ names) :
    Tally.log q.carried log = ∑ x ∈ names, Tally.box q.carried x (deliveredTo x log) :=
  Tally.log_eq_sum q.carried names h

/-- A name that a log delivers to has received something. -/
theorem deliveredTo_ne_nil {log : List Delivery} {d : Delivery} (h : d ∈ log) :
    deliveredTo d.1 log ≠ [] := by
  have hmem : d.2 ∈ deliveredTo d.1 log :=
    List.mem_map_of_mem (List.mem_filter.mpr ⟨h, by simp⟩)
  exact List.ne_nil_of_mem hmem

/-- What the mailboxes carry, entry by entry. -/
theorem Stock.mail_eq (q : Stock σ M) (k : Kernel σ) :
    q.mail k = (k.bus.mailboxes.entries.map fun e => Tally.box q.carried e.1 e.2).sum := by
  rw [Stock.mail, List.sum_toFinset _ k.bus.mailboxes.keys_nodup, Dict.keys, List.map_map]
  congr 1
  refine List.map_congr_left fun e he => ?_
  rw [Function.comp_apply, Kernel.inboxOf, Dict.get?_eq_some_iff.mpr he, Option.getD_some]

theorem Stock.Holds.register (h : q.Holds k) {a : FreshAgent σ} {p : Option String}
    (hreg : k.register a p = .ok k') (hfits : q.fits (a.linked p)) :
    q.Holds k' ∧ q.total k' = q.total k + q.held (a.linked p) := by
  have hsound := h.sound.register hreg
  have hagent := Kernel.agent?_register h.sound.wf hreg
  refine ⟨⟨hsound, fun x b hb halive => ?_, fun x hx => ?_⟩, ?_⟩
  · rw [hagent] at hb
    split at hb
    · cases hb
      exact hfits
    · exact h.fits x b hb halive
  · rw [Kernel.isLive, hagent]
    split
    · simp [Agent.isAlive, AgentState.isAlive]
    · exact h.lasting x hx
  · obtain ⟨hnew, rfl⟩ := Kernel.register_eq_ok_iff.mp hreg
    -- no mailbox stands under a free name, so the new agent begins without mail
    have hnobox : a.name ∉ k.bus.mailboxes.keys := by
      rw [h.sound.mail]
      exact fun hlive => hnew (Kernel.mem_keys_of_isLive hlive)
    have hkeys : (k.bus.register a.name).mailboxes.keys.toFinset
        = insert a.name k.bus.mailboxes.keys.toFinset := by
      ext x
      simp [MessageBus.mem_keys_register]
    have hmail : q.mail { k with
        objects := k.objects ++ [a.linked p]
        agents := k.agents.set a.name k.objects.length
        bus := k.bus.register a.name } = q.mail k := by
      have hempty : k.bus.mailboxes.get? a.name = none := Dict.get?_eq_none_iff.mpr hnobox
      unfold Stock.mail
      rw [hkeys, Finset.sum_insert (by simpa using hnobox)]
      simp only [Kernel.inboxOf, MessageBus.get?_register, if_pos, hempty]
      rw [Option.getD_some, Option.getD_none, Tally.box_nil, zero_add]
      refine Finset.sum_congr rfl fun x hx => ?_
      have hne : x ≠ a.name := by
        rintro rfl
        exact hnobox (by simpa using hx)
      rw [if_neg hne]
    unfold Stock.total
    rw [hmail]
    simp [Stock.holdings, add_right_comm]

theorem Stock.Holds.busPost (h : q.Holds k) {s r : String} {p : Value} {m : Metadata}
    (hpost : k.busPost s r p m = .ok k') :
    q.Holds k' ∧ q.total k' = q.total k + Tally.log q.carried
      (k.bus.deliveries { sender := s, recipient := r, payload := p, metadata := m }) := by
  have hsound := h.sound.busPost hpost
  obtain ⟨bus, hsend, rfl⟩ := Kernel.busPost_eq_ok hpost
  refine ⟨⟨hsound, h.fits, h.lasting⟩, ?_⟩
  have hlog : ∀ d ∈ k.bus.deliveries { sender := s, recipient := r, payload := p, metadata := m },
      d.1 ∈ k.bus.mailboxes.keys.toFinset := by
    intro d hd
    have hne := deliveredTo_ne_nil hd
    rw [MessageBus.deliveredTo_deliveries] at hne
    split at hne
    · rename_i hx
      simpa using hx.1
    · exact absurd rfl hne
  unfold Stock.total
  rw [q.tally_delivered hlog, add_assoc]
  congr 1
  unfold Stock.mail
  rw [← Finset.sum_add_distrib, show Kernel.bus { k with bus } = bus from rfl,
    MessageBus.keys_send hsend]
  refine Finset.sum_congr rfl fun x hx => ?_
  obtain ⟨mailbox, hmailbox⟩ := Dict.mem_keys_iff.mp (List.mem_toFinset.mp hx)
  simp [Kernel.inboxOf, MessageBus.get?_send hsend, hmailbox]

end

/-! ## One tick -/

section

variable [AddCommMonoid M] {q : Stock σ M} {code : AgentCode σ} {async : Bool}
  {k k' : Kernel σ} {t : TickState σ} {sent : List Delivery} {names : List String} {start : M}

/-- The mailboxes hold what the next tick hands out. -/
theorem Stock.mail_begin (q : Stock σ M) (hs : k.Sound) :
    q.mail k = (k.beginTick.jobs.map fun job => Tally.box q.carried job.name job.inbox).sum := by
  have hbegin := InTick.begin hs.wf
  unfold Stock.mail
  have hnames : (k.beginTick.jobs.map Job.name).Nodup := Kernel.beginTick_names_nodup hs.wf
  rw [Tally.sum_names hnames]
  · congr 1
    refine List.map_congr_left fun job hjob => ?_
    obtain ⟨hlive, hinbox⟩ := hbegin.live hs.wf hjob
    rw [if_pos (by simpa [hs.mail] using hlive), hinbox]
  · intro x hx hno
    obtain ⟨a, ha, halive⟩ := Kernel.isLive_iff.mp ((hs.mail x).mp (List.mem_toFinset.mp hx))
    rcases hbegin.scheduled_or_idle hs.wf ha halive with ⟨job, hjob, hname⟩ | ⟨-, hempty⟩
    · exact absurd hname (hno job hjob)
    · rw [hempty, Tally.box_nil]

namespace TickRun

/-- The agent of a job after the tick. -/
theorem agent?_of_job (h : TickRun code k t sent k' names) (hwf : k.Wf) {job : Job σ}
    (hjob : job ∈ t.jobs) {a : Agent σ} (ha : t.kernel.objects[job.ref]? = some a) :
    k'.agent? job.name = some (job.concluded code a) := by
  obtain ⟨b, hreg, -⟩ := h.point.inTick.origin hwf hjob
  exact Kernel.agent?_eq_some_iff.mpr
    ⟨_, h.registered hreg, h.outcome.job job hjob a ha⟩

/-- The agents that finish in a tick are dead after it. -/
theorem mem_ended_iff (h : TickRun code k t sent k' names) (hwf : k.Wf) {job : Job σ}
    (hjob : job ∈ t.jobs) : job ∈ t.ended code ↔ ¬ k'.isLive job.name = true := by
  obtain ⟨a, ha, -⟩ := h.point.inTick.job_object hwf hjob
  simp [TickState.ended, hjob, ha, Kernel.isLive, h.agent?_of_job hwf hjob ha]

/-- A tick delivers to the agents that are alive after it and to those that
finish in it. -/
theorem delivered_cases (h : TickRun code k t sent k' names) (hs : k.Sound) {d : Delivery}
    (hd : d ∈ sent ++ t.barrierLog code) :
    k'.isLive d.1 = true ∨ ∃ job ∈ t.ended code, job.name = d.1 := by
  have hbox := h.point.box_of_sound hs d.1
  have hlj : k.isLive d.1 = true ∨ k.joinedBy t.kernel d.1 := by
    by_contra hno
    obtain ⟨hnone, hsent⟩ := hbox.2 hno
    rcases List.mem_append.mp hd with hd | hd
    · exact deliveredTo_ne_nil hd hsent
    · refine deliveredTo_ne_nil hd ?_
      rw [h.outcome.posted, if_neg (Dict.get?_eq_none_iff.mp hnone)]
  by_cases hlive : k'.isLive d.1 = true
  · exact .inl hlive
  · right
    have hfinished : ∃ job ∈ t.jobs, job.name = d.1 ∧ k'.isFinishedAt job = true := by
      by_contra hno
      exact hlive ((h.isLive_iff hs.wf d.1).mpr ⟨hlj, hno⟩)
    obtain ⟨job, hjob, hname, -⟩ := hfinished
    exact ⟨job, (h.mem_ended_iff hs.wf hjob).mpr (hname ▸ hlive), hname⟩

/-- What is put back to the mailboxes, and what the finished agents had been
given, is what all failed steps had been given. -/
theorem requeued_eq (h : TickRun code k t sent k' names) (hs : k.Sound) (q : Stock σ M) :
    ∑ x ∈ k'.bus.mailboxes.keys.toFinset,
        Tally.box q.carried x (t.kernel.requeued t.casualties x)
      + ((t.ended code).map fun job =>
          if job.phase.isFailed then Tally.box q.carried job.name job.inbox else 0).sum
      = (t.casualties.map fun job => Tally.box q.carried job.name job.inbox).sum := by
  have hnobody : ∀ x ∈ k'.bus.mailboxes.keys.toFinset, (∀ job ∈ t.jobs, job.name ≠ x) →
      Tally.box q.carried x (t.kernel.requeued t.casualties x) = 0 := by
    intro x _ hno
    rw [requeued_of_no_job hno, Tally.box_nil]
  have hfailed := Tally.sum_filter (fun job : Job σ => job.phase.isFailed)
    (fun job => Tally.box q.carried job.name job.inbox) t.jobs
  rw [Tally.sum_names (h.point.inTick.names_nodup hs.wf) _ _ hnobody, TickState.ended,
    Tally.sum_filter, ← List.sum_map_add]
  refine Eq.trans ?_ hfailed.symm
  congr 1
  refine List.map_congr_left fun job hjob => ?_
  have hended := h.mem_ended_iff hs.wf hjob
  simp only [TickState.ended, List.mem_filter, hjob, true_and] at hended
  have hkeys : job.name ∈ k'.bus.mailboxes.keys.toFinset ↔ k'.isLive job.name = true := by
    rw [List.mem_toFinset, (h.sound hs).mail]
  by_cases hlive : k'.isLive job.name = true
  · have hsettled := h.settled hjob
    rw [if_pos (hkeys.mpr hlive), if_neg (fun he => hended.mp he hlive), add_zero,
      h.requeued_of_live hs.wf hjob hlive]
    cases hp : job.phase with
    | pending | running | escaped => rw [hp] at hsettled; cases hsettled
    | returned | failed => simp [Phase.isReturned, Phase.isFailed]
  · rw [if_neg (fun hin => hlive (hkeys.mp hin)), if_pos (hended.mpr hlive), zero_add]

/-- What has been delivered is in the mailboxes, or lost. -/
theorem delivered_eq (h : TickRun code k t sent k' names) (hs : k.Sound) (q : Stock σ M) :
    ∑ x ∈ k'.bus.mailboxes.keys.toFinset,
        Tally.box q.carried x (deliveredTo x (sent ++ t.barrierLog code))
      + ((t.ended code).map fun job =>
          Tally.box q.carried job.name (deliveredTo job.name (sent ++ t.barrierLog code))).sum
      = Tally.log q.carried (sent ++ t.barrierLog code) := by
  have hnodup : ((t.ended code).map Job.name).Nodup :=
    (h.point.inTick.names_nodup hs.wf).sublist (List.filter_sublist.map _)
  have hdisjoint : Disjoint k'.bus.mailboxes.keys.toFinset
      ((t.ended code).map Job.name).toFinset := by
    rw [Finset.disjoint_left]
    intro x hx hended
    rw [List.mem_toFinset, (h.sound hs).mail] at hx
    obtain ⟨job, hjob, rfl⟩ := List.mem_map.mp (List.mem_toFinset.mp hended)
    exact (h.mem_ended_iff hs.wf (List.mem_filter.mp hjob).1).mp hjob hx
  have hall : ∀ d ∈ sent ++ t.barrierLog code, d.1 ∈ k'.bus.mailboxes.keys.toFinset
      ∪ ((t.ended code).map Job.name).toFinset := by
    intro d hd
    rw [Finset.mem_union, List.mem_toFinset, (h.sound hs).mail, List.mem_toFinset]
    refine (h.delivered_cases hs hd).imp_right ?_
    rintro ⟨job, hjob, hname⟩
    exact hname ▸ List.mem_map_of_mem hjob
  rw [q.tally_delivered hall, Finset.sum_union hdisjoint, List.sum_toFinset _ hnodup, List.map_map]
  rfl

/-- **The mail of a tick**: what the mailboxes carry after it, and what is lost,
is what the failed steps had been given and what has been delivered. -/
theorem mail_eq (h : TickRun code k t sent k' names) (hs : k.Sound) (q : Stock σ M)
    (report : TickReport) :
    q.mail k' + q.lost code (.ticked t (sent ++ t.barrierLog code) report)
      = (t.casualties.map fun job => Tally.box q.carried job.name job.inbox).sum
        + Tally.log q.carried (sent ++ t.barrierLog code) := by
  have hmail : q.mail k' = ∑ x ∈ k'.bus.mailboxes.keys.toFinset,
        Tally.box q.carried x (t.kernel.requeued t.casualties x)
      + ∑ x ∈ k'.bus.mailboxes.keys.toFinset,
        Tally.box q.carried x (deliveredTo x (sent ++ t.barrierLog code)) := by
    rw [← Finset.sum_add_distrib]
    refine Finset.sum_congr rfl fun x hx => ?_
    have hlive := ((h.sound hs).mail x).mp (List.mem_toFinset.mp hx)
    rw [Kernel.inboxOf, h.mailbox hs, if_pos hlive, Option.getD_some, Tally.box_append]
  rw [hmail, ← h.requeued_eq hs q, ← h.delivered_eq hs q, Stock.lost, List.sum_map_add]
  abel

/-- **What the agents hold after a tick**, what is put back for the failed steps,
what the steps used up and what was sent is within what there was. -/
theorem holdings_within (h : TickRun code k t sent k' names)
    (howing : OwingTick q code async k t sent start) (hwf : k.Wf) :
    q.balance.within
      (q.holdings k'
        + ((t.casualties.map fun job => q.given job.name (k.tick + 1) job.inbox).sum
          + t.jobs.length • q.spent)
        + Tally.log q.carried sent) start := by
  obtain ⟨owed, howes, hothers, hsum⟩ := howing.owed
  have hjobs : ∀ job ∈ t.jobs, job.ref < k'.objects.length := by
    intro job hjob
    obtain ⟨a, ha, -⟩ := h.point.inTick.job_object hwf hjob
    exact h.outcome.length ▸ (List.getElem?_eq_some_iff.mp ha).1
  have hback : (t.jobs.map fun job =>
      (if job.phase.isFailed then q.given job.name (k.tick + 1) job.inbox else 0) + q.spent).sum
      = (t.casualties.map fun job => q.given job.name (k.tick + 1) job.inbox).sum
        + t.jobs.length • q.spent := by
    rw [List.sum_map_add, TickState.casualties, Tally.sum_filter]
    simp
  rw [← hsum, ← hback, ← q.sum_holdings _ hjobs, h.outcome.length]
  refine q.balance.add_right (q.balance.sum fun i hi => ?_) _
  obtain ⟨a, ha⟩ : ∃ a, t.kernel.objects[i]? = some a :=
    ⟨_, List.getElem?_eq_getElem (Finset.mem_range.mp hi)⟩
  obtain ⟨c, hc, -, hother, hjob⟩ := h.outcome.object h.point.inTick hwf ha
  -- an object with a job pays what the job owed, any other keeps what it held
  by_cases hwork : ∃ job ∈ t.jobs, job.ref = i
  · obtain ⟨job, hmem, rfl⟩ := hwork
    have hone := filter_eq_of_nodup_map (h.point.inTick.refs_nodup hwf) hmem
    have hends := (howes job hmem a ha).ends (h.settled hmem)
    rw [hc, hjob job hmem rfl, hone]
    rw [h.point.inTick.tick] at hends
    simpa [add_assoc] using hends.within
  · have hno : ∀ job ∈ t.jobs, job.ref ≠ i := fun job hmem href => hwork ⟨job, hmem, href⟩
    have hnone : (t.jobs.filter fun job => job.ref = i) = [] := by
      rw [List.filter_eq_nil_iff]
      exact fun job hmem => by simpa using hno job hmem
    rw [hc, hother hno, hnone, hothers i a ha hno]
    simpa using q.balance.refl (q.held a)

/-- The object of an agent that joined during the tick is one the tick has
added. -/
theorem joined_object (h : TickRun code k t sent k' names) (hwf : k.Wf) {x : String} {a : Agent σ}
    (hx : k'.agent? x = some a) (hnew : x ∉ k.agents.keys) :
    ∃ ref, k.objects.length ≤ ref ∧ t.kernel.objects[ref]? = some a := by
  obtain ⟨ref, hreg, ho⟩ := Kernel.agent?_eq_some_iff.mp hx
  rw [h.outcome.agents] at hreg
  have hnewest := h.point.joined hreg hnew
  have hno : ∀ job ∈ t.jobs, job.ref ≠ ref := by
    rintro job hmem rfl
    obtain ⟨b, -, hb, -⟩ := h.point.inTick.origin hwf hmem
    obtain ⟨hlt, -⟩ := List.getElem?_eq_some_iff.mp hb
    omega
  exact ⟨ref, hnewest, h.outcome.others ref hno ▸ ho⟩

/-- **The agents after a tick**: those that are alive fit, and none that is to
last has finished. -/
theorem holds (h : TickRun code k t sent k' names)
    (howing : OwingTick q code async k t sent start) (hk : q.Holds k) : q.Holds k' := by
  have hwf := hk.sound.wf
  obtain ⟨owed, howes, -⟩ := howing.owed
  have hjobs : ∀ job ∈ t.jobs, ∀ a, t.kernel.objects[job.ref]? = some a →
      ((job.concluded code a).isAlive = true → q.fits (job.concluded code a))
        ∧ (q.lasting job.name → (job.concluded code a).isAlive = true) := by
    intro job hmem a ha
    have hends := (howes job hmem a ha).ends (h.settled hmem)
    obtain ⟨b, hb, hname, -⟩ := h.point.inTick.job_object hwf hmem
    rw [ha] at hb
    cases hb
    refine ⟨hends.fits, fun hlast => hends.lasting ?_⟩
    rwa [Job.concluded_name, hname]
  constructor
  case sound => exact h.sound hk.sound
  case fits =>
    intro x c hc halive
    rcases hwf.registered_or x with ⟨a, ha⟩ | hnew
    · rcases h.fate hwf ha with ⟨-, hsame⟩ | ⟨job, hjob, -, -, -, a1, ha1, -, -, hc'⟩
      · rw [hc] at hsame
        cases hsame
        exact hk.fits x c ha halive
      · rw [hc] at hc'
        cases hc'
        exact (hjobs job hjob a1 ha1).1 halive
    · obtain ⟨ref, hnewest, ho⟩ := h.joined_object hwf hc hnew
      exact howing.fits ref c hnewest ho
  case lasting =>
    intro x hx
    obtain ⟨a, ha, halive⟩ := Kernel.isLive_iff.mp (hk.lasting x hx)
    rcases h.fate hwf ha with ⟨-, hsame⟩ | ⟨job, hjob, rfl, -, -, a1, ha1, -, -, hc⟩
    · exact Kernel.isLive_iff.mpr ⟨a, hsame, halive⟩
    · exact Kernel.isLive_iff.mpr ⟨_, hc, (hjobs job hjob a1 ha1).2 hx⟩

/-- Nothing is lost and nobody is notified in a tick that all its agents survive. -/
theorem lost_of_survived (h : TickRun code k t sent k' names) (hwf : k.Wf)
    (hall : ∀ job ∈ t.jobs, k'.isLive job.name = true) :
    t.ended code = [] ∧ t.barrierLog code = [] := by
  constructor
  · rw [List.eq_nil_iff_forall_not_mem]
    intro job hended
    have hjob : job ∈ t.jobs := List.mem_of_mem_filter hended
    exact (h.mem_ended_iff hwf hjob).mp hended (hall job hjob)
  · have hnone : k'.notices t.casualties = [] := by
      rw [List.eq_nil_iff_forall_not_mem]
      intro m hm
      obtain ⟨job, hcasualty, hfailed, -⟩ := Kernel.mem_notices.mp hm
      have hjob : job ∈ t.jobs := List.mem_of_mem_filter hcasualty
      obtain ⟨a, ha, -⟩ := h.point.inTick.job_object hwf hjob
      obtain ⟨c, hc, halive⟩ := Kernel.isLive_iff.mp (hall job hjob)
      rw [h.agent?_of_job hwf hjob ha] at hc
      cases hc
      rw [Kernel.hasFailed, h.outcome.job job hjob a ha] at hfailed
      simp only [decide_eq_true_eq] at hfailed
      rw [Agent.isAlive, hfailed] at halive
      cases halive
    rw [List.eq_nil_iff_forall_not_mem]
    intro d hd
    refine deliveredTo_ne_nil hd ?_
    rw [h.outcome.posted, hnone]
    simp

/-- What the steps of a tick were to make, the failed ones and the others. -/
theorem made_eq (h : TickRun code k t sent k' names) (q : Stock σ M) :
    (k.beginTick.jobs.map fun job => q.made job.name (k.tick + 1)).sum
      = (t.casualties.map fun job => q.made job.name (k.tick + 1)).sum
        + ((t.jobs.filter fun job => job.phase.isReturned).map fun job =>
            q.made job.name (k.tick + 1)).sum := by
  have hnames := TickState.map_name_of_fixed h.point.inTick.fixed
  have hjobs : (k.beginTick.jobs.map fun job => q.made job.name (k.tick + 1))
      = t.jobs.map fun job => q.made job.name (k.tick + 1) := by
    simpa [Function.comp_def] using congrArg (List.map fun x => q.made x (k.tick + 1)) hnames.symm
  rw [hjobs, TickState.casualties, Tally.sum_filter, Tally.sum_filter, ← List.sum_map_add]
  congr 1
  refine List.map_congr_left fun job hjob => ?_
  have hsettled := h.settled hjob
  cases hp : job.phase with
  | pending | running | escaped => rw [hp] at hsettled; cases hsettled
  | returned | failed => simp [Phase.isReturned, Phase.isFailed]

end TickRun

end

/-- A synchronous backend runs no async agents. -/
theorem Kernel.isAsyncAgent_of_accepted {code : AgentCode σ} {b : Backend} {loop : Bool}
    {k : Kernel σ} (h : k.refused code b loop = none) :
    ∀ job ∈ k.beginTick.jobs, ∀ a, k.objects[job.ref]? = some a →
      b.isAsync = false → code.isAsyncAgent a = false := by
  intro job hjob a ha hsync
  obtain ⟨e, hmem, rfl⟩ := List.mem_map.mp hjob
  obtain ⟨-, ho, -⟩ := mem_liveSnapshot.mp (List.of_mem_zip (List.mem_filter.mp hmem).1).1
  obtain rfl : e.1.2 = a := by
    rw [ho] at ha
    exact Option.some.inj ha
  rw [refused, Backend.refuses, hsync] at h
  simp only [Bool.false_eq_true, if_false, Option.map_eq_none_iff, List.find?_eq_none] at h
  simpa using h _ (List.mem_map_of_mem hmem)

section

variable [AddCommMonoid M] {q : Stock σ M} {code : AgentCode σ} {k k' : Kernel σ}

/-- **One tick keeps the accounts.** -/
theorem Stock.Holds.tick (h : q.Holds k) (hcode : code.Keeps q) (hcontext : code.ContextOnly)
    {b : Backend} {loop : Bool} {sched : List Nat} {report : TickReport} {e : Event σ}
    (he : e = .ticked (k.tickWith code b loop sched) (k.stepLog code b loop sched) report)
    (hallow : k.Allows code b loop sched)
    (hstep : k.stepWith code b loop sched = (k', .ok report)) :
    q.Holds k' ∧ q.balance.within (q.total k' + (q.lost code e + q.used e))
      (q.total k + q.entered code e) := by
  have hwf := h.sound.wf
  obtain ⟨hrefused, -, -⟩ := Kernel.barrier_of_stepWith hstep
  obtain ⟨sent, names, hrun, hsent, -, hlog⟩ :=
    Kernel.tickRun_of_stepWith hcontext hwf h.sound.addressable hallow hstep
  rw [Kernel.tickWith_of_accepted hrefused] at he hrun hlog
  have howing := OwingTick.exec hcode hcontext hwf h.sound.addressable h.fits h.lasting
    (Kernel.isAsyncAgent_of_accepted hrefused) sched
  rw [← hsent] at howing
  generalize k.beginTick.exec code b.isAsync sched = t at he hrun hlog howing
  refine ⟨hrun.holds howing h, ?_⟩
  have hmail := hrun.mail_eq h.sound q report
  have hholdings := hrun.holdings_within howing hwf
  simp only [Stock.given, List.sum_map_add, ← q.mail_begin h.sound, hrun.made_eq q] at hholdings
  rw [Tally.log_append] at hmail
  rw [he, hlog, Stock.total, Stock.total, Stock.entered, Stock.used, Event.jobs,
    hrun.point.inTick.tick]
  generalize (t.casualties.map fun job => q.made job.name (k.tick + 1)).sum = unmade at hholdings
  generalize (t.casualties.map fun job => Tally.box q.carried job.name job.inbox).sum = returned
    at hmail hholdings
  generalize ((t.jobs.filter fun job => job.phase.isReturned).map fun job =>
    q.made job.name (k.tick + 1)).sum = made at hholdings ⊢
  generalize Tally.log q.carried (t.barrierLog code) = notices at hmail ⊢
  -- what the failed steps were to make is on both sides
  refine q.balance.cancel (c := unmade) ?_
  have hall := q.balance.add_right hholdings notices
  convert hall using 1
  · calc q.holdings k' + q.mail k' + (q.lost code (.ticked t (sent ++ t.barrierLog code) report)
            + t.jobs.length • q.spent) + unmade
        = q.holdings k' + (q.mail k' + q.lost code (.ticked t (sent ++ t.barrierLog code) report))
            + t.jobs.length • q.spent + unmade := by
          abel
      _ = _ := by
          rw [hmail]
          abel
  · abel

/-- **What agents conserve, the kernel conserves.** If the code of each agent
deals correctly with what the agent holds and is given, then after any run, on
any backends, in any order of the agents' actions, the live agents still fit,
those that are to last are alive, and what the agents hold and their mailboxes
carry, with what was lost with finished agents and what the steps used up, is
within what there was at the start and what has entered since. -/
theorem agents_keep_accounts (hcode : code.Keeps q) (hcontext : code.ContextOnly)
    {es : List (Event σ)} (h : q.Holds k) (hrun : Kernel.Run code k es k')
    (hnew : ∀ a p, .registered a p ∈ es → q.fits (a.linked p)) :
    q.Holds k' ∧ q.balance.within
      (q.total k' + (es.map fun e => q.lost code e + q.used e).sum)
      (q.total k + (es.map (q.entered code)).sum) := by
  induction hrun with
  | nil => exact ⟨h, q.balance.refl _⟩
  | @snoc es e u u' hrun hnext ih =>
    obtain ⟨hu, haccounts⟩ := ih fun a p hmem => hnew a p (by simp [hmem])
    obtain ⟨hu', hevent⟩ : q.Holds u' ∧ q.balance.within (q.total u' + (q.lost code e + q.used e))
        (q.total u + q.entered code e) := by
      cases hnext with
      | register hreg =>
        obtain ⟨hholds, htotal⟩ := hu.register hreg (hnew _ _ (by simp))
        refine ⟨hholds, ?_⟩
        simpa [Stock.lost, Stock.used, Event.jobs, Stock.entered, htotal]
          using q.balance.refl _
      | post hpost =>
        obtain ⟨hholds, htotal⟩ := hu.busPost hpost
        refine ⟨hholds, ?_⟩
        simpa [Stock.lost, Stock.used, Event.jobs, Stock.entered, htotal]
          using q.balance.refl _
      | tick hallow hstep => exact hu.tick hcode hcontext rfl hallow hstep
    refine ⟨hu', ?_⟩
    simpa using q.balance.trans haccounts hevent

end

end TitoOS
