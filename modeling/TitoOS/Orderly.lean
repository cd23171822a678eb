import TitoOS.Deed
import TitoOS.Kernel.Run
import TitoOS.Kernel.Twin

/-!
# Orderly ticks

A tick of plain agents comes out the same in every order of actions, except for
the order in which marks of different jobs interleave. So a tick goes alike in
all orders as long as no two agents put mail into one mailbox and no two agents
fail in it (`Kernel.Orderly`). The mail of agents that finish in the tick does
not matter, since their mailboxes are reclaimed unread: kernels that differ in
nothing else mirror each other, and an orderly tick keeps that
(`Kernel.Mirrors.stepWith`).
-/

namespace TitoOS

variable {σ : Type}

/-! ## The end of a tick -/

/-- Nothing is left to do for any job. -/
def TickState.IsDone (t : TickState σ) : Prop :=
  ∀ job ∈ t.jobs, job.phase.isSettled = true ∨ (job.phase.escaped?).isSome = true

namespace PlainTick

variable {k : Kernel σ} {t : TickState σ} {log : List Mark} {code : AgentCode σ}

/-- A job that has ended has its whole deed behind it. -/
theorem deed_of_ended (h : PlainTick k t log) (hwf : k.Wf) (code : AgentCode σ) {i : Nat}
    {job : Job σ} (hi : t.jobs[i]? = some job)
    (hended : job.phase.isSettled = true ∨ (job.phase.escaped?).isSome = true) :
    ∃ a, t.kernel.objects[job.ref]? = some a ∧ t.deed? code i = some ⟨a, job.phase, []⟩ := by
  obtain ⟨a, ha, hdeed⟩ := h.deed?_of_job hwf code hi
  refine ⟨a, ha, hdeed.trans ?_⟩
  unfold Job.deed
  cases hp : job.phase with
  | pending | running => simp [hp, Phase.isSettled, Phase.escaped?] at hended
  | returned | failed | escaped => rfl

/-- How a job that has ended was going to end from the start. -/
theorem ended (hwf : k.Wf) (hcode : code.Plain) (sched : List Nat) {i : Nat} {job : Job σ}
    (hi : (k.beginTick.exec code false sched).jobs[i]? = some job)
    (hended : job.phase.isSettled = true ∨ (job.phase.escaped?).isSome = true) :
    ∃ a ms, (k.beginTick.exec code false sched).kernel.objects[job.ref]? = some a
      ∧ k.beginTick.deed? code i = some ⟨a, job.phase, ms⟩ := by
  obtain ⟨a, ha, hdeed⟩ := (exec hwf hcode sched).deed_of_ended hwf code hi hended
  obtain ⟨ms, hms⟩ := (begin hwf).deed_exec hwf hcode sched i
  exact ⟨a, ms ++ [], ha, hms.trans (by rw [hdeed]; rfl)⟩

end PlainTick

/-- If at most one job is going to leave marks of a kind, there is one that all
others leave none of. -/
theorem TickState.exists_only {code : AgentCode σ} {t : TickState σ} {p : Mark → Bool}
    (h : ((List.range t.jobs.length).filter fun i =>
      (t.deed? code i).any fun d => d.marks.any p).length ≤ 1) :
    ∃ i, ∀ j, j ≠ i → (((t.deed? code j).map Deed.marks).getD []).filter p = [] := by
  have hmem : ∀ j, (((t.deed? code j).map Deed.marks).getD []).filter p ≠ [] →
      j ∈ (List.range t.jobs.length).filter fun i =>
        (t.deed? code i).any fun d => d.marks.any p := by
    intro j hj
    cases hd : t.deed? code j with
    | none => simp [hd] at hj
    | some d =>
      have hlt : j < t.jobs.length := by
        by_contra hge
        simp [TickState.deed?, List.getElem?_eq_none (not_lt.mp hge)] at hd
      simpa [hlt, hd, List.filter_eq_nil_iff] using hj
  cases hl : (List.range t.jobs.length).filter fun i =>
      (t.deed? code i).any fun d => d.marks.any p with
  | nil =>
    refine ⟨0, fun j _ => ?_⟩
    by_contra hne
    have := hmem j hne
    rw [hl] at this
    cases this
  | cons i rest =>
    rw [hl, List.length_cons] at h
    obtain rfl : rest = [] := List.length_eq_zero_iff.mp (by omega)
    refine ⟨i, fun j hji => ?_⟩
    by_contra hne
    have := hmem j hne
    rw [hl, List.mem_singleton] at this
    exact hji this

namespace PlainTick

variable {k : Kernel σ} {code : AgentCode σ}

/-- **What a done tick has left of one kind of mark**, when only one job leaves
any: the marks of that job. -/
theorem markLog_filter (hwf : k.Wf) (hcode : code.Plain) {sched : List Nat}
    (hdone : (k.beginTick.exec code false sched).IsDone) {p : Mark → Bool} {i : Nat}
    (hi : ∀ j, j ≠ i → (((k.beginTick.deed? code j).map Deed.marks).getD []).filter p = []) :
    (k.beginTick.markLog code sched).filter p
      = (((k.beginTick.deed? code i).map Deed.marks).getD []).filter p := by
  refine (faithful hwf hcode).emitted_filter sched ⟨[], begin hwf⟩ (fun j => ?_) hi
  show (((k.beginTick.exec code false sched).deed? code j).map Deed.marks).getD [] = []
  cases hj : (k.beginTick.exec code false sched).jobs[j]? with
  | none => simp [TickState.deed?, hj]
  | some job =>
    obtain ⟨a, -, hdeed⟩ := (exec hwf hcode sched).deed_of_ended hwf code hj
      (hdone job (List.mem_of_getElem? hj))
    rw [hdeed]
    rfl

end PlainTick

/-! ## Orderly ticks and mirrored kernels -/

namespace Kernel

/-- The scheduled agents, by their place, that leave a mark of a kind in the
next tick. -/
def leaving (code : AgentCode σ) (k : Kernel σ) (p : Mark → Bool) : List Nat :=
  (List.range k.beginTick.jobs.length).filter fun i =>
    (k.beginTick.deed? code i).any fun d => d.marks.any p

/-- `x` is not alive, or finishes for good in the next tick. -/
def doomed (code : AgentCode σ) (k : Kernel σ) (x : String) : Bool :=
  !k.isLive x || (List.range k.beginTick.jobs.length).any fun i =>
    (k.beginTick.jobs[i]?).any (fun job => job.name = x) && (k.beginTick.deed? code i).any Deed.ends

/-- In the next tick no two agents put mail into one mailbox that stays, no two
agents fail, and only the last one may let a `BaseException` escape. -/
structure Orderly (code : AgentCode σ) (k : Kernel σ) : Prop where
  mail : ∀ x ∈ k.bus.mailboxes.keys, k.doomed code x = false →
    (k.leaving code (Mark.mailFor x)).length ≤ 1
  failures : (k.leaving code Mark.isFailure).length ≤ 1
  escapes : ∀ i ∈ List.range (k.beginTick.jobs.length - 1),
    ((k.beginTick.deed? code i).bind fun d => d.phase.escaped?) = none

instance (code : AgentCode σ) (k : Kernel σ) : Decidable (k.Orderly code) :=
  decidable_of_iff
    ((∀ x ∈ k.bus.mailboxes.keys, k.doomed code x = false →
        (k.leaving code (Mark.mailFor x)).length ≤ 1)
      ∧ (k.leaving code Mark.isFailure).length ≤ 1
      ∧ ∀ i ∈ List.range (k.beginTick.jobs.length - 1),
        ((k.beginTick.deed? code i).bind fun d => d.phase.escaped?).isNone = true)
    ⟨fun ⟨hmail, hfail, hescape⟩ =>
      ⟨hmail, hfail, fun i hi => Option.isNone_iff_eq_none.mp (hescape i hi)⟩,
    fun h => ⟨h.mail, h.failures, fun i hi => Option.isNone_iff_eq_none.mpr (h.escapes i hi)⟩⟩

/-- `m` is `k`, but for the mail of finished agents. -/
structure Mirrors (k m : Kernel σ) : Prop where
  tick : m.tick = k.tick
  stopReason : m.stopReason = k.stopReason
  agents : m.agents = k.agents
  objects : m.objects = k.objects
  errors : m.errors = k.errors
  bus : k.bus.Same (fun x => k.isLive x = false) m.bus

namespace Mirrors

variable {k m : Kernel σ} {code : AgentCode σ}

theorem refl (k : Kernel σ) : k.Mirrors k := ⟨rfl, rfl, rfl, rfl, rfl, .of_box fun _ => rfl⟩

theorem twins (h : k.Mirrors m) (used : List Nat) :
    Twins (fun x => k.isLive x = false) used k m where
  tick := h.tick
  stopReason := h.stopReason
  agents := h.agents
  objects := h.objects ▸ List.forall₂_same.mpr fun a _ => .refl a
  used := fun ref _ => by rw [h.objects]
  bus := h.bus

theorem wf (h : k.Mirrors m) (hwf : k.Wf) : m.Wf := by
  intro x ref hx
  rw [h.agents] at hx
  rw [h.objects]
  exact hwf x ref hx

/-- The mail of live agents is not hidden. -/
theorem visible (hwf : k.Wf) : Twins.Visible (fun x => k.isLive x = false) k := by
  intro x hx
  obtain ⟨e, he, rfl⟩ := List.mem_map.mp hx
  obtain ⟨hreg, ho, halive⟩ := (mem_liveSnapshot_iff hwf).mp (show (e.1, e.2) ∈ _ from he)
  have hlive : k.isLive e.2.name = true :=
    isLive_iff.mpr ⟨e.2, agent?_eq_some_iff.mpr ⟨e.1, hreg, ho⟩, halive⟩
  simp [hlive]

theorem beginTick_jobs (h : k.Mirrors m) (hwf : k.Wf) : m.beginTick.jobs = k.beginTick.jobs :=
  ((h.twins []).beginTick (visible hwf)).1

/-- The deeds of the next tick are the same. -/
theorem deeds (h : k.Mirrors m) (hwf : k.Wf) (code : AgentCode σ) (i : Nat) :
    m.beginTick.deed? code i = k.beginTick.deed? code i := by
  have hkeys : ∀ x, x ∈ m.beginTick.kernel.bus.mailboxes.keys
      ↔ x ∈ k.beginTick.kernel.bus.mailboxes.keys := by
    intro x
    rw [beginTick_keys, beginTick_keys, h.bus.mem_keys]
  unfold TickState.deed?
  rw [h.beginTick_jobs hwf, beginTick_objects, beginTick_objects, h.objects, beginTick_tick,
    beginTick_tick, h.tick]
  simp only [Job.deed_congr hkeys]

end Mirrors

end Kernel

theorem Mark.failures_filter (marks : List Mark) :
    Mark.failures (marks.filter Mark.isFailure) = Mark.failures marks := by
  unfold Mark.failures
  rw [List.filterMap_filter]
  refine List.filterMap_congr fun mark _ => ?_
  cases mark <;> rfl

namespace Kernel.Mirrors

variable {k m : Kernel σ} {code : AgentCode σ}

/-- **Two done ticks come out alike**, in whatever order their actions happened,
if one is orderly. -/
theorem done (hcode : code.Plain) (hwf : k.Wf) (h : k.Mirrors m) (horder : k.Orderly code)
    {s s' : List Nat} (hs : (k.beginTick.exec code false s).IsDone)
    (hs' : (m.beginTick.exec code false s').IsDone) :
    (m.beginTick.exec code false s').jobs = (k.beginTick.exec code false s).jobs
      ∧ (m.beginTick.exec code false s').kernel.objects
        = (k.beginTick.exec code false s).kernel.objects
      ∧ (m.beginTick.exec code false s').kernel.errors
        = (k.beginTick.exec code false s).kernel.errors
      ∧ (k.beginTick.exec code false s).kernel.bus.Same (fun x => k.doomed code x = true)
          (m.beginTick.exec code false s').kernel.bus := by
  have hwf' := h.wf hwf
  have ht := PlainTick.exec hwf hcode s
  have ht' := PlainTick.exec hwf' hcode s'
  -- in each of the two ticks a job ends in its deed, which does not depend on the order
  have hended : ∀ i job, (k.beginTick.exec code false s).jobs[i]? = some job → ∃ a ms,
      (k.beginTick.exec code false s).kernel.objects[job.ref]? = some a
        ∧ k.beginTick.deed? code i = some ⟨a, job.phase, ms⟩ :=
    fun i job hi => PlainTick.ended hwf hcode s hi (hs job (List.mem_of_getElem? hi))
  have hended' : ∀ i job, (m.beginTick.exec code false s').jobs[i]? = some job → ∃ a ms,
      (m.beginTick.exec code false s').kernel.objects[job.ref]? = some a
        ∧ m.beginTick.deed? code i = some ⟨a, job.phase, ms⟩ :=
    fun i job hi => PlainTick.ended hwf' hcode s' hi (hs' job (List.mem_of_getElem? hi))
  -- entries that come from one job only are in the same order in both logs
  have hfilter : ∀ p : Mark → Bool, (k.leaving code p).length ≤ 1 →
      (m.beginTick.markLog code s').filter p = (k.beginTick.markLog code s).filter p := by
    intro p hp
    obtain ⟨i, hi⟩ := TickState.exists_only hp
    rw [PlainTick.markLog_filter hwf hcode hs hi, PlainTick.markLog_filter hwf' hcode hs'
      (fun j hj => by rw [h.deeds hwf]; exact hi j hj), h.deeds hwf]
  have hjobs : (m.beginTick.exec code false s').jobs = (k.beginTick.exec code false s).jobs := by
    have hfixed : (m.beginTick.exec code false s').jobs.map Job.fixed
        = (k.beginTick.exec code false s).jobs.map Job.fixed := by
      rw [ht.inTick.fixed, ht'.inTick.fixed, h.beginTick_jobs hwf]
    refine List.ext_getElem? fun i => ?_
    have hfixed_i := congrArg (fun l => l[i]?) hfixed
    simp only [List.getElem?_map] at hfixed_i
    cases hi : (k.beginTick.exec code false s).jobs[i]? with
    | none =>
      rw [hi, Option.map_none, Option.map_eq_none_iff] at hfixed_i
      exact hfixed_i
    | some job =>
      rw [hi, Option.map_some] at hfixed_i
      obtain ⟨job', hi', heq⟩ := Option.map_eq_some_iff.mp hfixed_i
      obtain ⟨a, ms, -, hdeed⟩ := hended i job hi
      obtain ⟨a', ms', -, hdeed'⟩ := hended' i job' hi'
      rw [h.deeds hwf, hdeed] at hdeed'
      cases job
      cases job'
      simp_all [Job.fixed]
  refine ⟨hjobs, List.ext_getElem? fun r => ?_, ?_, ?_⟩
  · by_cases hjob : ∃ job ∈ (k.beginTick.exec code false s).jobs, job.ref = r
    · obtain ⟨job, hmem, rfl⟩ := hjob
      obtain ⟨i, hi⟩ := List.mem_iff_getElem?.mp hmem
      obtain ⟨a, ms, ha, hdeed⟩ := hended i job hi
      obtain ⟨a', ms', ha', hdeed'⟩ := hended' i job (hjobs ▸ hi)
      rw [h.deeds hwf, hdeed] at hdeed'
      cases hdeed'
      rw [ha, ha']
    · have hno : ∀ job ∈ (k.beginTick.exec code false s).jobs, job.ref ≠ r :=
        fun job hmem href => hjob ⟨job, hmem, href⟩
      rw [ht.others r hno, ht'.others r (hjobs ▸ hno), h.objects]
  · rw [ht.errors, ht'.errors, h.errors, ← Mark.failures_filter, hfilter _ horder.failures,
      Mark.failures_filter]
  · have hbegin := ((h.twins []).beginTick (visible hwf)).2.bus
    refine ⟨fun x => by rw [ht.mem_keys, ht'.mem_keys, h.bus.mem_keys], fun x hx => ?_⟩
    have hlive : ¬ k.isLive x = false := fun hdead => hx (by simp [doomed, hdead])
    rw [ht.box, ht'.box, hbegin.box x hlive]
    cases hmail : k.beginTick.kernel.bus.mailboxes.get? x with
    | none => rfl
    | some mailbox =>
      have hkey : x ∈ k.bus.mailboxes.keys := by
        rw [← beginTick_keys k]
        exact Dict.mem_keys_of_get? hmail
      rw [hfilter _ (horder.mail x hkey (by simpa using hx))]

/-- The deeds of an orderly tick let only the last job escape. -/
theorem isDone (hcode : code.Plain) (hwf : k.Wf) (h : k.Mirrors m) (horder : k.Orderly code)
    {b : Backend} (hb : b.isAsync = false) {loop : Bool} {sched : List Nat}
    (haccepted : m.refused code b loop = none) (hallow : m.Allows code b loop sched) :
    (m.beginTick.exec code false sched).IsDone := by
  have hwf' := h.wf hwf
  simp only [Allows, haccepted, hb] at hallow
  rcases hallow.2 with hcomplete | hraised
  · intro job hjob
    exact .inl (List.all_eq_true.mp hcomplete job hjob)
  · simp only [Backend.raises, hb] at hraised
    cases hfind : (m.beginTick.exec code false sched).jobs.find? fun job =>
        !job.phase.isSettled with
    | none => simp [hfind] at hraised
    | some job =>
      have hescaped : (job.phase.escaped?).isSome = true := by simpa [hfind] using hraised
      obtain ⟨-, before, after, hsplit, hbefore⟩ := List.find?_eq_some_iff_append.mp hfind
      have hi : (m.beginTick.exec code false sched).jobs[before.length]? = some job := by
        simp [hsplit]
      obtain ⟨a, ms, -, hdeed⟩ := PlainTick.ended hwf' hcode sched hi (.inr hescaped)
      rw [h.deeds hwf] at hdeed
      have hlength : k.beginTick.jobs.length = before.length + 1 + after.length := by
        have hfixed := congrArg List.length (PlainTick.exec hwf' hcode sched).inTick.fixed
        rw [List.length_map, List.length_map, hsplit, h.beginTick_jobs hwf] at hfixed
        simp at hfixed
        omega
      -- a BaseException leaves only the last step of the order, so no job is left behind it
      have hlast : after = [] := by
        by_contra hne
        have hpos : 0 < after.length := List.length_pos_iff.mpr hne
        have hnone := horder.escapes before.length (by rw [List.mem_range]; omega)
        rw [hdeed, Option.bind_some] at hnone
        simp only [hnone] at hescaped
        cases hescaped
      intro j hj
      rw [hsplit, hlast] at hj
      rcases List.mem_append.mp hj with hj | hj
      · exact .inl (by simpa using hbefore j hj)
      · obtain rfl := List.mem_singleton.mp hj
        exact .inr hescaped

/-- Who is doomed is not alive when the step is over, with its barrier or without. -/
theorem not_isLive_of_doomed (hcode : code.Plain) (hwf : k.Wf) {s : List Nat}
    (hs : (k.beginTick.exec code false s).IsDone) {k' : Kernel σ}
    (hkept : Kept (k.beginTick.exec code false s).casualties
      (k.beginTick.exec code false s).kernel k') {x : String} (hx : k.doomed code x = true) :
    k'.isLive x = false := by
  have ht := PlainTick.exec hwf hcode s
  by_contra hlive
  obtain ⟨a, ha, halive⟩ := isLive_iff.mp (by simpa using hlive)
  obtain ⟨ref, hreg, hobj⟩ := agent?_eq_some_iff.mp ha
  rw [hkept.agents, ht.agents] at hreg
  obtain ⟨a0, ha0, hobj0, hname⟩ := hwf.agent? hreg
  simp only [doomed, Bool.or_eq_true, Bool.not_eq_true', List.any_eq_true, Bool.and_eq_true,
    Option.any_eq_true, decide_eq_true_eq] at hx
  rcases hx with hdead | ⟨i, -, ⟨job, hi, rfl⟩, d, hdeed, hends⟩
  · -- it was not alive before, so it has not been scheduled
    have hno : ∀ job ∈ (k.beginTick.exec code false s).jobs, job.ref ≠ ref := by
      rintro job hjob rfl
      obtain ⟨b, -, hb, -, hblive, -⟩ := ht.inTick.origin hwf hjob
      rw [hobj0] at hb
      cases hb
      rw [isLive, ha0, Option.any_some, hblive] at hdead
      cases hdead
    rcases hkept.object ref with hsame | ⟨⟨job, hjob, href⟩, -⟩
    · rw [hsame, ht.others ref hno, hobj0] at hobj
      cases hobj
      rw [isLive, ha0, Option.any_some, halive] at hdead
      cases hdead
    · exact hno job (TickState.casualties_sublist _ |>.subset hjob) href
  · -- its step ended it, and nobody restarts it
    have hfixed_i := congrArg (fun l => l[i]?) ht.inTick.fixed
    simp only [List.getElem?_map, hi, Option.map_some] at hfixed_i
    obtain ⟨job', hi', heq⟩ := Option.map_eq_some_iff.mp hfixed_i
    simp only [Job.fixed, Prod.mk.injEq] at heq
    obtain ⟨href, hjname, -⟩ := heq
    have hmem' := List.mem_of_getElem? hi'
    obtain ⟨a1, ms, ha1, hdeed'⟩ := PlainTick.ended hwf hcode s hi' (hs job' hmem')
    rw [hdeed] at hdeed'
    cases hdeed'
    obtain ⟨b, hjreg, -⟩ := ht.inTick.origin hwf hmem'
    rw [hjname, hreg] at hjreg
    obtain rfl := Option.some.inj hjreg
    simp only [Deed.ends, Bool.and_eq_true, Bool.not_eq_true', Bool.and_eq_false_iff] at hends
    rcases hkept.object job'.ref with hsame | ⟨⟨job'', hjob'', href''⟩, b, b', hb, -, -, hmay, -⟩
    · rw [hsame, ha1] at hobj
      cases hobj
      rw [halive] at hends
      cases hends.1
    · obtain ⟨hmem'', hfailed⟩ := List.mem_filter.mp hjob''
      obtain rfl := List.inj_on_of_nodup_map (ht.inTick.refs_nodup hwf) hmem'' hmem' href''
      rw [ha1] at hb
      cases hb
      rcases hends.2 with hnot | hnot
      · rw [hfailed] at hnot
        cases hnot
      · rw [hmay] at hnot
        cases hnot

theorem of_twins {hidden : String → Prop} {k' m' : Kernel σ}
    (h : Twins hidden (List.range k'.objects.length) k' m') (herrors : m'.errors = k'.errors)
    (hlive : ∀ x, hidden x → k'.isLive x = false) : k'.Mirrors m' where
  tick := h.tick
  stopReason := h.stopReason
  agents := h.agents
  objects := by
    refine List.ext_getElem? fun i => ?_
    by_cases hi : i < k'.objects.length
    · exact h.used i (List.mem_range.mpr hi)
    · rw [List.getElem?_eq_none (not_lt.mp hi), List.getElem?_eq_none (h.length ▸ not_lt.mp hi)]
  errors := herrors
  bus := ⟨h.bus.mem_keys, fun x hx => h.bus.box x fun hhid => hx (hlive x hhid)⟩

/-! ## Steps -/

theorem scheduled (h : k.Mirrors m) (hwf : k.Wf) : m.scheduled = k.scheduled :=
  (h.twins []).scheduled (visible hwf)

theorem drained (h : k.Mirrors m) (hwf : k.Wf) : m.drained = k.drained :=
  (h.twins []).drained (visible hwf)

/-- Synchronous backends refuse the same ticks. -/
theorem refused_isSome (h : k.Mirrors m) (hwf : k.Wf) (code : AgentCode σ) {b b' : Backend}
    (hb : b.isAsync = false) (hb' : b'.isAsync = false) (loop loop' : Bool) :
    (m.refused code b loop).isSome = (k.refused code b' loop').isSome := by
  unfold Kernel.refused Backend.refuses
  simp [hb, hb', h.scheduled hwf]

/-- A refused tick leaves the kernels alike. -/
theorem beginTick (h : k.Mirrors m) (hwf : k.Wf) :
    k.beginTick.kernel.Mirrors m.beginTick.kernel where
  tick := by rw [beginTick_tick, beginTick_tick, h.tick]
  stopReason := h.stopReason
  agents := h.agents
  objects := h.objects
  errors := h.errors
  bus := ((h.twins []).beginTick (visible hwf)).2.bus

/-- Two done ticks are twins but for the mail of who is doomed. -/
theorem done_twins (hcode : code.Plain) (hwf : k.Wf) (h : k.Mirrors m) (horder : k.Orderly code)
    {s s' : List Nat} (hs : (k.beginTick.exec code false s).IsDone)
    (hs' : (m.beginTick.exec code false s').IsDone) (used : List Nat) :
    Twins (fun x => k.doomed code x = true) used (k.beginTick.exec code false s).kernel
      (m.beginTick.exec code false s').kernel := by
  have ht := PlainTick.exec hwf hcode s
  have ht' := PlainTick.exec (h.wf hwf) hcode s'
  obtain ⟨-, hobjects, -, hbus⟩ := h.done hcode hwf horder hs hs'
  constructor
  case tick => rw [ht.inTick.tick, ht'.inTick.tick, h.tick]
  case stopReason => rw [ht.inTick.stopReason, ht'.inTick.stopReason, h.stopReason]
  case agents => rw [ht.agents, ht'.agents, h.agents]
  case objects => exact hobjects ▸ List.forall₂_same.mpr fun a _ => .refl a
  case used => exact fun ref _ => by rw [hobjects]
  case bus => exact hbus

/-- **One tick**: if it is orderly, the synchronous backends take it alike. -/
theorem stepWith (hcode : code.Plain) (hwf : k.Wf) (h : k.Mirrors m) (horder : k.Orderly code)
    {b b' : Backend} (hb : b.isAsync = false) (hb' : b'.isAsync = false) {loop loop' : Bool}
    {s s' : List Nat} (hallow : k.Allows code b loop s) (hallow' : m.Allows code b' loop' s') :
    (m.stepWith code b' loop' s').2.toOption = (k.stepWith code b loop s).2.toOption
      ∧ (k.stepWith code b loop s).1.Mirrors (m.stepWith code b' loop' s').1 := by
  have hrefused := h.refused_isSome hwf code hb' hb loop' loop
  cases hk : k.refused code b loop with
  | some e =>
    obtain ⟨e', hm⟩ := Option.isSome_iff_exists.mp (hrefused.trans (by rw [hk]; rfl))
    simp only [Kernel.stepWith, tickWith, hk, hm]
    exact ⟨rfl, h.beginTick hwf⟩
  | none =>
    have hm : m.refused code b' loop' = none := by simpa [hk] using hrefused
    have hs : (k.beginTick.exec code false s).IsDone :=
      (refl k).isDone hcode hwf horder hb hk hallow
    have hs' : (m.beginTick.exec code false s').IsDone :=
      h.isDone hcode hwf horder hb' hm hallow'
    obtain ⟨hjobs, -, herrors, -⟩ := h.done hcode hwf horder hs hs'
    have htwins := h.done_twins hcode hwf horder hs hs'
    simp only [Kernel.stepWith, tickWith, hk, hm, hb, hb']
    have hraises : b'.raises (m.beginTick.exec code false s')
        = b.raises (k.beginTick.exec code false s) := by
      simp [Backend.raises, hb, hb', hjobs]
    have hwaiting : m.waitingNames = k.waitingNames := by
      unfold Kernel.waitingNames
      rw [h.drained hwf]
    rw [hraises, hwaiting]
    -- whether or not the barrier is reached, it is twins that are left
    have hleft : ∀ {k' m' : Kernel σ},
        (∀ used, Twins (fun x => k.doomed code x = true) used k' m') →
        Kept (k.beginTick.exec code false s).casualties (k.beginTick.exec code false s).kernel k' →
        m'.errors = k'.errors → k'.Mirrors m' := fun htwins hkept herrors =>
      of_twins (htwins _) herrors fun x hx => not_isLive_of_doomed hcode hwf hs hkept hx
    cases b.raises (k.beginTick.exec code false s) with
    | some e => exact ⟨rfl, hleft htwins (.of_bus _ _ _) herrors⟩
    | none =>
      have hsame : m.beginTick.exec code false s'
          = ⟨(m.beginTick.exec code false s').kernel, (k.beginTick.exec code false s).jobs⟩ := by
        rw [← hjobs]
      have hbarrier : ∀ used,
          ((m.beginTick.exec code false s').barrier code k.waitingNames).2
            = ((k.beginTick.exec code false s).barrier code k.waitingNames).2
          ∧ Twins (fun x => k.doomed code x = true) used
            ((k.beginTick.exec code false s).barrier code k.waitingNames).1
            ((m.beginTick.exec code false s').barrier code k.waitingNames).1 := by
        intro used
        rw [hsame]
        obtain ⟨hreport, hafter⟩ := (htwins
            (used ++ (k.beginTick.exec code false s).jobs.map Job.ref)).barrier code
          (fun job hjob => List.mem_append_right _ (List.mem_map_of_mem hjob)) k.waitingNames
        exact ⟨hreport, hafter.mono fun ref href => List.mem_append_left _ href⟩
      refine ⟨congrArg Except.toOption (hbarrier []).1, hleft (fun used => (hbarrier used).2)
        (kept_barrier ..) ?_⟩
      rw [(kept_barrier ..).errors, (kept_barrier ..).errors, herrors]

end Kernel.Mirrors

end TitoOS
