import TitoOS.Script
import TitoOS.Lib.Ledger

/-!
# Delivery across the tick barrier

The mailbox of an agent keeps a redelivery ledger (`ledgerOf`): a tick hands
out what is pending, a step that returns consumes it, and a step that fails has
it put back in front of what was accepted meanwhile. The run of the kernel
refines this ledger (`Books`), so a message is never lost, consumed twice or
overtaken, as long as every call of `step` completes its tick. A call that
raises has drained the mailboxes by then (`refused_tick_breaks_delivery`).
-/

namespace TitoOS

variable {σ : Type}

/-! ## What a run has accepted and consumed -/

/-- The messages a history has appended to the mailbox of `x`, in acceptance
order. -/
def acceptedFor (x : String) (es : List (Event σ)) : List Message :=
  deliveredTo x (es.flatMap Event.log)

/-- The inboxes of the steps of `x` that returned normally during an event. -/
def Event.consumedBy (x : String) (e : Event σ) : List Message :=
  (e.jobs.filter fun job => job.name = x && job.phase.isReturned).flatMap Job.inbox

/-- The inboxes of the steps of `x` that returned normally, one after the other. -/
def consumedBy (x : String) (es : List (Event σ)) : List Message := es.flatMap (Event.consumedBy x)

@[simp] theorem acceptedFor_append (x : String) (es fs : List (Event σ)) :
    acceptedFor x (es ++ fs) = acceptedFor x es ++ acceptedFor x fs := by
  simp [acceptedFor]

@[simp] theorem acceptedFor_singleton (x : String) (e : Event σ) :
    acceptedFor x [e] = deliveredTo x e.log := by
  simp [acceptedFor]

@[simp] theorem consumedBy_append (x : String) (es fs : List (Event σ)) :
    consumedBy x (es ++ fs) = consumedBy x es ++ consumedBy x fs := by
  simp [consumedBy]

@[simp] theorem consumedBy_singleton (x : String) (e : Event σ) :
    consumedBy x [e] = e.consumedBy x := by
  simp [consumedBy]

/-! ## The abstract mailbox -/

/-- What an event does to the ledger of `x`. -/
def Event.book (x : String) (l : Ledger Message) (e : Event σ) : Ledger Message :=
  match e.jobs.find? fun job => job.name = x with
  | some job => l.round (deliveredTo x e.log) job.phase.isReturned
  | none => l.accept (deliveredTo x e.log)

/-- The ledger of `x` after a history. -/
def ledgerOf (x : String) (es : List (Event σ)) : Ledger Message := es.foldl (Event.book x) ∅

@[simp] theorem ledgerOf_concat (x : String) (es : List (Event σ)) (e : Event σ) :
    ledgerOf x (es ++ [e]) = Event.book x (ledgerOf x es) e := by
  simp [ledgerOf]

/-- The ledger books what was accepted. -/
theorem accepted_ledgerOf (x : String) (es : List (Event σ)) :
    (ledgerOf x es).accepted = acceptedFor x es := by
  induction es using List.reverseRecOn with
  | nil => rfl
  | append_singleton es e ih =>
    rw [ledgerOf_concat, Event.book, acceptedFor_append, acceptedFor_singleton, ← ih]
    split <;> simp

theorem inFlight_ledgerOf (x : String) (es : List (Event σ)) : (ledgerOf x es).inFlight = [] := by
  induction es using List.reverseRecOn with
  | nil => rfl
  | append_singleton es e ih =>
    rw [ledgerOf_concat, Event.book]
    split
    · simp
    · simpa using ih

/-! ## The kernel keeps the books -/

/-- The kernel `k` holds, after the history `es`, what the ledgers say. -/
structure Books (es : List (Event σ)) (k : Kernel σ) : Prop where
  sound : k.Sound
  /-- Nothing is pending for a name nobody has. -/
  unused : ∀ x, x ∉ k.agents.keys → (ledgerOf x es).pending = []
  /-- The mailbox of a live agent is what is pending for it. -/
  mailbox : ∀ x, k.isLive x = true →
    k.bus.mailboxes.get? x = some (ledgerOf x es).pending
  /-- The ledgers book what the steps consumed. -/
  consumed : ∀ x, (ledgerOf x es).consumed = consumedBy x es

namespace Books

variable {es : List (Event σ)} {k k' : Kernel σ}

theorem init : Books ([] : List (Event σ)) {} where
  sound := Kernel.sound_init
  unused := fun _ _ => rfl
  mailbox := fun x h => by simp [Kernel.isLive, Kernel.agent?] at h
  consumed := fun _ => rfl

/-- Booking an event that steps nobody. -/
theorem book_of_no_jobs {e : Event σ} (h : e.jobs = []) (x : String) (l : Ledger Message) :
    Event.book x l e = l.accept (deliveredTo x e.log) := by
  simp [Event.book, h]

theorem consumed_of_no_jobs (hb : Books es k) {e : Event σ} (h : e.jobs = []) (x : String) :
    (ledgerOf x (es ++ [e])).consumed = consumedBy x (es ++ [e]) := by
  rw [ledgerOf_concat, book_of_no_jobs h, consumedBy_append, consumedBy_singleton, ← hb.consumed]
  simp [Event.consumedBy, h]

theorem register (hb : Books es k) {a : FreshAgent σ} {p : Option String}
    (h : k.register a p = .ok k') : Books (es ++ [.registered a p]) k' := by
  have hpending : ∀ x,
      (ledgerOf x (es ++ [.registered a p])).pending = (ledgerOf x es).pending := by
    intro x
    rw [ledgerOf_concat, book_of_no_jobs rfl]
    simp [Event.log]
  constructor
  case sound => exact hb.sound.register h
  case consumed => exact hb.consumed_of_no_jobs rfl
  case unused =>
    intro x hx
    rw [hpending]
    obtain ⟨hnew, rfl⟩ := Kernel.register_eq_ok_iff.mp h
    refine hb.unused x fun hin => hx ?_
    simp [Dict.keys_set_of_not_mem hnew, hin]
  case mailbox =>
    intro x hlive
    rw [hpending]
    rw [Kernel.isLive, Kernel.agent?_register hb.sound.wf h] at hlive
    obtain ⟨hnew, rfl⟩ := Kernel.register_eq_ok_iff.mp h
    by_cases hx : x = a.name
    · subst hx
      have hnone : k.bus.mailboxes.get? a.name = none := by
        rw [Dict.get?_eq_none_iff, hb.sound.mail]
        exact fun hlive => hnew (Kernel.mem_keys_of_isLive hlive)
      simp [hb.unused _ hnew, hnone]
    · rw [if_neg hx] at hlive
      simpa [hx] using hb.mailbox x hlive

theorem post (hb : Books es k) {s r : String} {p : Value} {m : Metadata}
    (h : k.busPost s r p m = .ok k') :
    Books (es ++ [.posted (k.bus.deliveries
      { sender := s, recipient := r, payload := p, metadata := m })]) k' := by
  have hsound := hb.sound.busPost h
  obtain ⟨bus, hsend, rfl⟩ := Kernel.busPost_eq_ok h
  constructor
  case sound => exact hsound
  case consumed => exact hb.consumed_of_no_jobs rfl
  case unused =>
    intro x hx
    have hno : x ∉ k.bus.mailboxes.keys := fun hin =>
      hx (Kernel.mem_keys_of_isLive ((hb.sound.mail x).mp hin))
    rw [ledgerOf_concat, book_of_no_jobs rfl]
    simp [Event.log, hb.unused x hx, MessageBus.deliveredTo_deliveries, hno]
  case mailbox =>
    intro x hlive
    show bus.mailboxes.get? x = _
    rw [MessageBus.get?_send hsend, hb.mailbox x hlive, ledgerOf_concat, book_of_no_jobs rfl]
    rfl

theorem tick (hb : Books es k) {code : AgentCode σ} {t : TickState σ} {sent log : List Delivery}
    {names : List String} {report : TickReport} (h : TickRun code k t sent k' names)
    (hlog : log = sent ++ t.barrierLog code) : Books (es ++ [.ticked t log report]) k' := by
  have hwf := hb.sound.wf
  have hinbox : ∀ x, k.isLive x = true → k.inboxOf x = (ledgerOf x es).pending := by
    intro x hlive
    simp [Kernel.inboxOf, hb.mailbox x hlive]
  constructor
  case sound => exact h.sound hb.sound
  case unused =>
    intro x hx
    obtain ⟨hold, hno⟩ := h.not_registered hwf hx
    -- a name that nobody bears yet has no mailbox, so no message for it was accepted
    have hlj : ¬ (k.isLive x = true ∨ k.joinedBy t.kernel x) := by
      rintro (hlive | hjoin)
      · exact hold (Kernel.mem_keys_of_isLive hlive)
      · exact hx (h.outcome.agents ▸ hjoin.1)
    obtain ⟨hbox, hsent⟩ := (h.point.box_of_sound hb.sound x).2 hlj
    have hposted : deliveredTo x (t.barrierLog code) = [] := by
      rw [h.outcome.posted, if_neg (Dict.get?_eq_none_iff.mp hbox)]
    have hjob : (t.jobs.find? fun job => job.name = x) = none := by
      rw [List.find?_eq_none]
      exact fun job hm hname => hno job hm (of_decide_eq_true hname)
    simp [Event.book, Event.jobs, Event.log, hjob, hlog, hb.unused x hold, hsent, hposted]
  case mailbox =>
    intro x hlive
    rw [h.mailbox hb.sound, if_pos hlive, ledgerOf_concat, Event.book, ← hlog]
    -- a job of the name was given all that was pending; without one nothing was pending
    obtain ⟨hlj, hnofin⟩ := (h.isLive_iff hwf x).mp hlive
    cases hfind : (Event.ticked t log report).jobs.find? fun job => job.name = x with
    | some job =>
      have hjob : job ∈ t.jobs := List.mem_of_find?_eq_some hfind
      obtain rfl : job.name = x := by simpa using List.find?_some hfind
      obtain ⟨hklive, hjinbox⟩ := h.point.inTick.live hwf hjob
      rw [h.requeued_of_live hwf hjob hlive]
      simp only [Ledger.pending_round (inFlight_ledgerOf _ _)]
      rw [← hinbox _ hklive, ← hjinbox]
      rfl
    | none =>
      have hnojob : ∀ job ∈ t.jobs, job.name ≠ x := by
        intro job hm hname
        have := List.find?_eq_none.mp hfind job hm
        simp [hname] at this
      rw [TickRun.requeued_of_no_job hnojob, List.nil_append]
      have hempty : (ledgerOf x es).pending = [] := by
        rcases hlj with hklive | hjoin
        · rw [← hinbox x hklive]
          obtain ⟨a, ha, halive⟩ := Kernel.isLive_iff.mp hklive
          rcases h.point.inTick.scheduled_or_idle hwf ha halive with ⟨job, hm, hname⟩ | ⟨-, hin⟩
          · exact absurd hname (hnojob job hm)
          · exact hin
        · exact hb.unused x hjoin.2
      simp [hempty, Event.log]
  case consumed =>
    intro x
    rw [consumedBy_append, consumedBy_singleton, ledgerOf_concat, Event.book, Event.consumedBy,
      ← hb.consumed]
    show _ = _ ++ (t.jobs.filter fun job => job.name = x && job.phase.isReturned).flatMap Job.inbox
    cases hfind : (Event.ticked t log report).jobs.find? fun job => job.name = x with
    | some job =>
      have hjob : job ∈ t.jobs := List.mem_of_find?_eq_some hfind
      obtain rfl : job.name = x := by simpa using List.find?_some hfind
      obtain ⟨hklive, hjinbox⟩ := h.point.inTick.live hwf hjob
      simp only [Ledger.consumed_round (inFlight_ledgerOf _ _)]
      rw [← hinbox _ hklive, ← hjinbox,
        filter_and_eq_of_nodup_map (h.point.inTick.names_nodup hwf) hjob]
      cases job.phase.isReturned <;> simp
    | none =>
      have hnone : (t.jobs.filter fun job => job.name = x && job.phase.isReturned) = [] := by
        rw [List.filter_eq_nil_iff]
        intro job hm hp
        have := List.find?_eq_none.mp hfind job hm
        simp_all
      simp [hnone]

end Books

/-! ## Exactly once, in order -/

/-- **The kernel keeps the books** in every run. -/
theorem Kernel.Run.books {code : AgentCode σ} (hcode : code.ContextOnly)
    {k : Kernel σ} {es : List (Event σ)} (h : Kernel.Run code {} es k) : Books es k := by
  refine Runs.invariant_history (I := Books) ?_ h .init
  intro es u e u' hu hnext
  cases hnext with
  | register hreg => exact hu.register hreg
  | post hpost => exact hu.post hpost
  | tick hallow hstep =>
    obtain ⟨sent, names, hrun, -, -, hlog⟩ :=
      tickRun_of_stepWith hcode hu.sound.wf hu.sound.addressable hallow hstep
    exact hu.tick hrun hlog

/-- At every boundary of a run, what was appended to the mailbox of a live agent is
what its returned steps were given followed by what is still in the mailbox; and
the inbox of every step comes, right behind what was consumed before, from what
had been accepted before its tick began. -/
theorem Kernel.Run.delivers {code : AgentCode σ} (hcode : code.ContextOnly)
    {k : Kernel σ} {es : List (Event σ)} (h : Kernel.Run code {} es k) :
    (∀ x, k.isLive x = true → ∃ mailbox, k.bus.mailboxes.get? x = some mailbox
      ∧ acceptedFor x es = consumedBy x es ++ mailbox)
    ∧ ∀ pre t log report post, es = pre ++ .ticked t log report :: post →
      ∀ job ∈ t.jobs, acceptedFor job.name pre = consumedBy job.name pre ++ job.inbox := by
  constructor
  · intro x hlive
    have hb := Kernel.Run.books hcode h
    refine ⟨_, hb.mailbox x hlive, ?_⟩
    rw [← accepted_ledgerOf, ← hb.consumed]
    exact Ledger.accepted_eq (inFlight_ledgerOf x es)
  · rintro pre t log report post rfl job hjob
    obtain ⟨u, u', hpre, hnext, -⟩ := Runs.event h
    have hb := Kernel.Run.books hcode hpre
    cases hnext with
    | tick hallow hstep =>
      obtain ⟨sent, names, hrun, -⟩ :=
        Kernel.tickRun_of_stepWith hcode hb.sound.wf hb.sound.addressable hallow hstep
      obtain ⟨hlive, hinbox⟩ := hrun.point.inTick.live hb.sound.wf hjob
      rw [hinbox, Kernel.inboxOf, hb.mailbox _ hlive, ← accepted_ledgerOf, ← hb.consumed]
      exact Ledger.accepted_eq (inFlight_ledgerOf _ _)

/-! ## Calls that may raise -/

/-- What is done to a kernel and what comes of it: an event, or a call of `step`
that raises, with the tick as it is left and what has been appended by then. -/
inductive Attempt (σ : Type) where
  | done (event : Event σ)
  | raised (tick : TickState σ) (log : List Delivery)

namespace Attempt

/-- The attempt was an event: a call of `step` completed its tick. -/
def isDone : Attempt σ → Bool
  | done _ => true
  | raised .. => false

/-- What the attempt appended to mailboxes. -/
def log : Attempt σ → List Delivery
  | done e => e.log
  | raised _ log => log

/-- The agents the attempt scheduled. -/
def jobs : Attempt σ → List (Job σ)
  | done e => e.jobs
  | raised t _ => t.jobs

/-- The messages the attempts have appended to the mailbox of `x`. -/
def acceptedFor (x : String) (as : List (Attempt σ)) : List Message :=
  deliveredTo x (as.flatMap log)

/-- The inboxes of the steps of `x` that returned normally. -/
def consumedBy (x : String) (as : List (Attempt σ)) : List Message :=
  as.flatMap fun a =>
    (a.jobs.filter fun job => job.name = x && job.phase.isReturned).flatMap Job.inbox

theorem acceptedFor_done (x : String) (es : List (Event σ)) :
    acceptedFor x (es.map done) = TitoOS.acceptedFor x es := by
  simp [acceptedFor, TitoOS.acceptedFor, List.flatMap_map, log]

theorem consumedBy_done (x : String) (es : List (Event σ)) :
    consumedBy x (es.map done) = TitoOS.consumedBy x es := by
  simp only [consumedBy, TitoOS.consumedBy, List.flatMap_map]
  rfl

end Attempt

/-- One attempt on a kernel whose agents run `code`. Nobody is unregistered. -/
inductive Kernel.Attempts (code : AgentCode σ) : Kernel σ → Attempt σ → Kernel σ → Prop
  | done {k k' : Kernel σ} {e : Event σ} : Next code k e k' → Attempts code k (.done e) k'
  | raised {k k' : Kernel σ} {b : Backend} {loop : Bool} {sched : List Nat} {e : Exc} :
      k.Allows code b loop sched → k.stepWith code b loop sched = (k', .error e) →
      Attempts code k
        (.raised (k.tickWith code b loop sched) (k.stepLog code b loop sched)) k'

/-- The runs of attempts on a kernel whose agents run `code`. -/
abbrev Kernel.Attempted (code : AgentCode σ) : Kernel σ → List (Attempt σ) → Kernel σ → Prop :=
  Runs (Kernel.Attempts code)

/-- Attempts that all complete are the events of a run. -/
theorem Kernel.Attempted.run {code : AgentCode σ} {k k' : Kernel σ} {as : List (Attempt σ)}
    (h : Kernel.Attempted code k as k') (hdone : ∀ a ∈ as, a.isDone = true) :
    ∃ es, as = es.map .done ∧ Kernel.Run code k es k' := by
  induction h with
  | nil => exact ⟨[], rfl, .nil⟩
  | @snoc as a u u' _ hnext ih =>
    obtain ⟨es, rfl, hrun⟩ := ih fun a ha => hdone a (by simp [ha])
    have ha := hdone a (by simp)
    cases hnext with
    | done hnext => exact ⟨es ++ [_], by simp, hrun.snoc hnext⟩
    | raised => cases ha

theorem Kernel.Run.attempted {code : AgentCode σ} {k k' : Kernel σ} {es : List (Event σ)}
    (h : Kernel.Run code k es k') : Kernel.Attempted code k (es.map .done) k' := by
  induction h with
  | nil => exact .nil
  | snoc _ hnext ih =>
    rw [List.map_append]
    exact ih.snoc (.done hnext)

/-- Every message is delivered exactly once and in order: at the boundary `k`,
what was appended to the mailbox of a live agent is what its returned steps were
given followed by what is still in the mailbox; and the inbox of every step of
the history comes, right behind what was consumed before, from what had been
accepted before its tick began. -/
structure Kernel.DeliversOnce (as : List (Attempt σ)) (k : Kernel σ) : Prop where
  boundary : ∀ x, k.isLive x = true → ∃ mailbox, k.bus.mailboxes.get? x = some mailbox
    ∧ Attempt.acceptedFor x as = Attempt.consumedBy x as ++ mailbox
  inboxes : ∀ pre a post, as = pre ++ a :: post → ∀ job ∈ a.jobs,
    Attempt.acceptedFor job.name pre = Attempt.consumedBy job.name pre ++ job.inbox

/-- **Exactly-once FIFO delivery**, in every run whose calls of `step` all
complete their ticks. -/
theorem exactly_once_delivery {code : AgentCode σ} (hcode : code.ContextOnly)
    {k : Kernel σ} {as : List (Attempt σ)} (h : Kernel.Attempted code {} as k)
    (hdone : ∀ a ∈ as, a.isDone = true) : k.DeliversOnce as := by
  obtain ⟨es, rfl, hrun⟩ := h.run hdone
  obtain ⟨hboundary, hinboxes⟩ := hrun.delivers hcode
  constructor
  case boundary =>
    intro x hlive
    rw [Attempt.acceptedFor_done, Attempt.consumedBy_done]
    exact hboundary x hlive
  case inboxes =>
    intro pre a post heq job hjob
    obtain ⟨pre, rest, rfl, rfl, hrest⟩ := List.map_eq_append_iff.mp heq
    obtain ⟨e, post, rfl, rfl, rfl⟩ := List.map_eq_cons_iff.mp hrest
    rw [Attempt.acceptedFor_done, Attempt.consumedBy_done]
    cases e with
    | registered | posted => cases hjob
    | ticked t log report => exact hinboxes pre t log report post rfl job hjob

/-- A worker that fails on its mail while a producer sends it more, on two
threads. -/
def redeliveryOps : List (Op Script) :=
  [.register (Script.agent "producer" (by decide) [.send "worker" "job"]) none,
   .register (Script.agent "worker" Script.worker_ne [.fail "crash"] .onFailure) none,
   .post "user" "worker" (.str "first"),
   .tick (.thread 2 Script.two_workers) [0, 1, 0, 1, 0],
   .tick .serial [0, 0, 0, 1, 1]]

theorem redeliveryOps_accepted : (Kernel.replay scripted redeliveryOps {}).isSome = true := by
  decide

theorem exactly_once_delivery_redelivered :
    ∃ as k mailbox, Kernel.Attempted scripted {} as k
      ∧ k.bus.mailboxes.get? "worker" = some mailbox
      ∧ Attempt.acceptedFor "worker" as = Attempt.consumedBy "worker" as ++ mailbox
      ∧ mailbox.length = 3 := by
  have hrun := (Kernel.run_of_replay redeliveryOps_accepted).attempted
  obtain ⟨mailbox, hbox, heq⟩ :=
    (exactly_once_delivery scripted_contextOnly hrun (by simp [Attempt.isDone])).boundary "worker"
      (by decide)
  refine ⟨_, _, mailbox, hrun, hbox, heq, ?_⟩
  have hlen : ((((Kernel.replay scripted redeliveryOps {}).get
      redeliveryOps_accepted).2.bus.mailboxes.get? "worker").map List.length) = some 3 := by decide
  rw [hbox] at hlen
  exact Option.some.inj hlen

/-- **A refused tick breaks the delivery**: `SerialBackend` rejects the `async`
agent, and by then the worker's mail has been drained. The worker is alive, no
step has been given the message, and it is in no mailbox. -/
theorem refused_tick_breaks_delivery :
    ∃ as k, Kernel.Attempted scripted {} as k ∧ ¬ k.DeliversOnce as
      ∧ k.isLive "worker" = true ∧ k.bus.mailboxes.get? "worker" = some []
      ∧ Attempt.acceptedFor "worker" as
          = [{ sender := "user", recipient := "worker", payload := .str "job" }]
      ∧ Attempt.consumedBy "worker" as = [] := by
  have hbefore := (Kernel.run_of_replay mixedOps_accepted).attempted
  have hstep : mixed.stepWith scripted .serial false []
      = ((mixed.stepWith scripted .serial false []).1,
        .error (.asyncAgent "poller" "SerialBackend")) := rfl
  have hbox : (mixed.stepWith scripted .serial false []).1.bus.mailboxes.get? "worker"
      = some [] := by decide
  refine ⟨_, _, hbefore.snoc (.raised (b := .serial) (by decide) hstep), fun h => ?_,
    by decide, hbox, by decide, by decide⟩
  obtain ⟨mailbox, hmailbox, heq⟩ := h.boundary "worker" (by decide)
  rw [hbox] at hmailbox
  cases hmailbox
  revert heq
  decide

end TitoOS
