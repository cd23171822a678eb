import TitoOS.Gui.Gate
import TitoOS.Lib.Monitor

/-!
# Requests at the same time

Each request is handled on a thread of its own. What its handler does before it
takes `KernelGUI._lock`, and after it has released it, touches nothing that
changes; in between it makes many moves, each of which an unprotected reader could
see (`handling`). Made without a break they are what `handle` does
(`apply_handling`). So whatever the threads do at the same time, requests are
answered as if they had been handled one after another, in the order in which they
took the lock, and no request is left without an answer
(`requests_linearizable`).
-/

namespace TitoOS

variable {σ : Type}

/-- What a request does while it holds `_lock`. -/
abbrev Held (σ R : Type) := Critical (KernelGUI σ) R

namespace KernelGUI

/-! ## The moves of an operation -/

section Moves

variable {R : Type}

/-- The kernel moves on. -/
def setKernel (gui : KernelGUI σ) (kernel : Kernel σ) : KernelGUI σ := { gui with kernel }

@[simp] theorem kernel_setKernel (gui : KernelGUI σ) (k : Kernel σ) :
    (gui.setKernel k).kernel = k := rfl

@[simp] theorem setKernel_setKernel (gui : KernelGUI σ) (k k' : Kernel σ) :
    (gui.setKernel k).setKernel k' = gui.setKernel k' := rfl

/-- The tick that the kernel of the GUI is in. -/
def during (gui : KernelGUI σ) (jobs : List (Job σ)) : TickState σ := { kernel := gui.kernel, jobs }

/-- The actions of the agents of a tick. -/
def actions (d : Deployment σ) (rest : List (Job σ) → Held σ R) :
    List Nat → List (Job σ) → Held σ R
  | [], jobs => rest jobs
  | i :: sched, jobs =>
    .move (fun gui => gui.setKernel ((gui.during jobs).advance d.code d.backend.isAsync i).kernel)
      fun gui => actions d rest sched ((gui.during jobs).advance d.code d.backend.isAsync i).jobs

/-- The barrier: restarts, then escalations, then the mailboxes of who finished. -/
def barrierMoves (d : Deployment σ) (waiting : List String) (jobs : List (Job σ)) :
    Held σ (Except Exc TickReport) :=
  .move (fun gui =>
      gui.setKernel (gui.kernel.superviseAll d.code (gui.during jobs).casualties).1) fun gui =>
    match (gui.kernel.superviseAll d.code (gui.during jobs).casualties).2 with
    | .error e => .leave (.error e)
    | .ok restarted =>
      let report := (gui.during jobs).report waiting restarted
      .move (fun gui =>
          gui.setKernel (gui.kernel.escalateAll (gui.during jobs).casualties).1) fun gui =>
        match (gui.kernel.escalateAll (gui.during jobs).casualties).2 with
        | some e => .leave (.error e)
        | none => .move (fun gui => gui.setKernel (jobs.foldl Kernel.reclaim gui.kernel)) fun _ =>
          .leave (.ok report)

/-- `Kernel.step`. -/
def tickMoves (d : Deployment σ) (sched : List Nat) : Held σ (Except Exc TickReport) :=
  .move (fun gui => gui.setKernel gui.kernel.beginTick.kernel) fun gui =>
    match gui.kernel.refused d.code d.backend d.loop with
    | some e => .leave (.error e)
    | none =>
      actions d (fun jobs => .look fun now =>
          match d.backend.raises (now.during jobs) with
          | some e => .leave (.error e)
          | none => barrierMoves d gui.kernel.waitingNames jobs)
        sched gui.kernel.beginTick.jobs

/-- The loop of `Kernel.run`. -/
def loopMoves (d : Deployment σ) (scheds : Nat → List Nat) (i : Nat) :
    Nat → Held σ (Except Exc (List TickReport))
  | 0 => .move (fun gui => gui.setKernel gui.kernel.finishRun) fun _ => .leave (.ok [])
  | n + 1 => .look fun gui =>
    if gui.kernel.liveSnapshot.isEmpty then
      .move (fun gui => gui.setKernel { gui.kernel with stopReason := some .finished }) fun _ =>
        .leave (.ok [])
    else if gui.kernel.isQuiescentWith gui.kernel.liveSnapshot then
      .move (fun gui => gui.setKernel { gui.kernel with stopReason := some .quiescent }) fun _ =>
        .leave (.ok [])
    else
      (tickMoves d (scheds i)).andThen fun
        | .error e => .leave (.error e)
        | .ok report => (loopMoves d scheds (i + 1) n).andThen fun
          | .error e => .leave (.error e)
          | .ok reports => .leave (.ok (report :: reports))

/-- `KernelGUI.step`. -/
def stepMoves (d : Deployment σ) (sched : List Nat) : Held σ (Except Exc Value) :=
  (tickMoves d sched).andThen fun
    | .error e => .leave (.error e)
    | .ok report => .move (fun gui => { gui with reports := gui.reports.append report }) fun _ =>
      .leave (.ok report.toValue)

/-- `KernelGUI.run`, of a bound that it accepts. -/
def runMoves (d : Deployment σ) (scheds : Nat → List Nat) (n : Nat) :
    Held σ (Except Exc Value) :=
  .move (fun gui => gui.setKernel { gui.kernel with stopReason := some .maxTicks }) fun _ =>
    (loopMoves d scheds 0 n).andThen fun
      | .error e => .leave (.error e)
      | .ok reports =>
        .move (fun gui => { gui with reports := gui.reports.extend reports }) fun _ =>
        .look fun gui => .leave (.ok (.dict [("reports", .list (reports.map TickReport.toValue)),
          ("stop_reason", stopReasonValue gui.kernel.stopReason)]))

/-- The end of `KernelGUI.send`. -/
def postMoves (lib : PythonLib) (m : Message) : Held σ (Except Exc Value) :=
  .move (fun gui => (gui.post lib m).1) fun gui => .leave (gui.post lib m).2

/-- `KernelGUI.state`: what it shows is read piece by piece. -/
def stateMoves (d : Deployment σ) : Held σ (Except Exc Value) :=
  .look fun gui =>
    let mailboxes := gui.kernel.bus.dump
    .look fun gui =>
      let agents := gui.kernel.roster.map (agentState d.code mailboxes)
      .look fun gui =>
        let tick := gui.kernel.tick
        .look fun gui =>
          let reason := stopReasonValue gui.kernel.stopReason
          .look fun gui =>
            let quiescent := gui.kernel.isQuiescent
            .look fun gui =>
              let errors := gui.kernel.errors.map fun e => Value.dict [("agent", .str e.1),
                ("type", .str e.2.cls), ("error", .str (d.lib.str e.2))]
              .look fun gui => .leave do
                let boxes ← mailboxes.entries.mapM fun e =>
                  (mailboxState d.lib e.2).map (e.1, ·)
                return .dict [("tick", .int tick), ("stop_reason", reason),
                  ("quiescent", .bool quiescent), ("backend", .str d.backend.className),
                  ("sender", .str gui.sender), ("agents", .list agents),
                  ("mailboxes", .dict boxes), ("errors", .list errors),
                  ("integrations", .list (d.integrations.map .str)),
                  ("reports", .list (gui.reports.items.reverse.map TickReport.toValue))]

end Moves

/-! ### Without a break -/

section

variable {R : Type} (d : Deployment σ)

theorem run_actions (rest : List (Job σ) → Held σ R) (sched : List Nat) (jobs : List (Job σ))
    (gui : KernelGUI σ) :
    (actions d rest sched jobs).run gui
      = (rest ((gui.during jobs).exec d.code d.backend.isAsync sched).jobs).run
          (gui.setKernel ((gui.during jobs).exec d.code d.backend.isAsync sched).kernel) := by
  induction sched generalizing jobs gui with
  | nil => rfl
  | cons i sched ih => exact ih _ _

theorem run_barrierMoves (waiting : List String) (jobs : List (Job σ)) (gui : KernelGUI σ) :
    (barrierMoves d waiting jobs).run gui
      = (gui.setKernel ((gui.during jobs).barrier d.code waiting).1,
          ((gui.during jobs).barrier d.code waiting).2) := by
  rw [TickState.barrier, show (gui.during jobs).kernel = gui.kernel from rfl, barrierMoves,
    Critical.run_move]
  obtain ⟨k, restarted⟩ := gui.kernel.superviseAll d.code (gui.during jobs).casualties
  cases restarted with
  | error e => rfl
  | ok restarted =>
    simp only [Critical.run_move, kernel_setKernel,
      show ((gui.setKernel k).during jobs).casualties = (gui.during jobs).casualties from rfl]
    obtain ⟨k', e⟩ := k.escalateAll (gui.during jobs).casualties
    cases e <;> rfl

theorem run_tickMoves (sched : List Nat) (gui : KernelGUI σ) :
    (tickMoves d sched).run gui
      = (gui.setKernel (gui.kernel.stepWith d.code d.backend d.loop sched).1,
          (gui.kernel.stepWith d.code d.backend d.loop sched).2) := by
  rw [tickMoves, Critical.run_move]
  cases hrefused : gui.kernel.refused d.code d.backend d.loop with
  | some e =>
    rw [Kernel.stepWith_of_refused hrefused]
    rfl
  | none =>
    have hbegin : (gui.setKernel gui.kernel.beginTick.kernel).during gui.kernel.beginTick.jobs
        = gui.kernel.beginTick := rfl
    simp only [run_actions, Critical.run_look, hbegin, setKernel_setKernel]
    set t := gui.kernel.beginTick.exec d.code d.backend.isAsync sched with ht
    have hnow : (gui.setKernel t.kernel).during t.jobs = t := rfl
    rw [hnow]
    cases hraises : d.backend.raises t with
    | some e =>
      rw [Kernel.stepWith_of_raises hrefused hraises]
      rfl
    | none =>
      rw [Kernel.stepWith, Kernel.tickWith_of_accepted hrefused, hrefused, ← ht]
      simp only [hraises, run_barrierMoves, hnow, setKernel_setKernel]

theorem run_loopMoves (scheds : Nat → List Nat) (i n : Nat) (gui : KernelGUI σ) :
    (loopMoves d scheds i n).run gui
      = (gui.setKernel
            (gui.kernel.runLoopBy (Kernel.stepsOn d.code d.backend d.loop scheds) i n).1,
          (gui.kernel.runLoopBy (Kernel.stepsOn d.code d.backend d.loop scheds) i n).2) := by
  induction n generalizing i gui with
  | zero => rfl
  | succ n ih =>
    rw [loopMoves, Kernel.runLoopBy, Critical.run_look]
    split
    · rfl
    · split
      · rfl
      · rw [Critical.run_andThen, run_tickMoves, Kernel.stepsOn]
        obtain ⟨k, report⟩ := gui.kernel.stepWith d.code d.backend d.loop (scheds i)
        cases report with
        | error e => rfl
        | ok report =>
          simp only [Critical.run_andThen, ih, kernel_setKernel]
          obtain ⟨k', reports⟩ :=
            k.runLoopBy (Kernel.stepsOn d.code d.backend d.loop scheds) (i + 1) n
          cases reports <;> rfl

theorem run_stepMoves (sched : List Nat) (gui : KernelGUI σ) :
    (stepMoves d sched).run gui = gui.step d sched := by
  rw [stepMoves, Critical.run_andThen, run_tickMoves, step]
  obtain ⟨k, report⟩ := gui.kernel.stepWith d.code d.backend d.loop sched
  cases report <;> rfl

theorem run_runMoves (scheds : Nat → List Nat) {n : Int} (hn : 0 ≤ n ∧ n ≤ MAX_RUN_TICKS)
    (gui : KernelGUI σ) :
    (runMoves d scheds n.toNat).run gui = gui.run d scheds (.int n) := by
  rw [runMoves, Critical.run_move, Critical.run_andThen, run_loopMoves, run, if_pos hn,
    Kernel.runBy, if_neg (by omega)]
  simp only [kernel_setKernel, setKernel_setKernel]
  obtain ⟨k, reports⟩ := Kernel.runLoopBy (Kernel.stepsOn d.code d.backend d.loop scheds) 0
    n.toNat { gui.kernel with stopReason := some .maxTicks }
  cases reports <;> rfl

theorem run_postMoves (lib : PythonLib) (m : Message) (gui : KernelGUI σ) :
    (postMoves lib m).run gui = gui.post lib m := rfl

theorem run_stateMoves (gui : KernelGUI σ) : (stateMoves d).run gui = (gui, gui.state d) := rfl

end

/-! ## The handler -/

/-- The message that `send` posts. -/
def outgoing (gui : KernelGUI σ) (recipient payload metadata : Value) : Except Exc Message :=
  match recipient with
  | .str recipient =>
    if recipient = "" then .error (guiError "'to' must be a non-empty string")
    else
      match metadata with
      | .none => .ok { sender := gui.sender, recipient, payload }
      | .dict items =>
        .ok { sender := gui.sender, recipient, payload, metadata := Dict.ofList items }
      | _ => .error (guiError "'metadata' must be an object")
  | _ => .error (guiError "'to' must be a non-empty string")

/-- What an operation does under the lock, or what it raises before. -/
def callMoves (d : Deployment σ) (scheds : Nat → List Nat) (gui : KernelGUI σ) :
    GuiCall → Except Exc (Held σ (Except Exc Value))
  | .step => .ok (stepMoves d (scheds 0))
  | .run (.int n) =>
    if 0 ≤ n ∧ n ≤ MAX_RUN_TICKS then .ok (runMoves d scheds n.toNat)
    else .error (guiError ("max_ticks must be between 0 and " ++ toString MAX_RUN_TICKS))
  | .run _ => .error (guiError "max_ticks must be an integer")
  | .send recipient payload metadata =>
    (gui.outgoing recipient payload metadata).map (postMoves d.lib)

/-- `do_GET`: the answer, or what is done under the lock to get it. -/
def getMoves (d : Deployment σ) (gui : KernelGUI σ) (r : GuiRequest) :
    Except Answer (Held σ Answer) :=
  match gui.guard d.lib r with
  | .error answer => .error answer
  | .ok () =>
    if r.route ∈ ["/", "/index.html"] then
      .error (.ok (.make .OK d.page "text/html; charset=utf-8"))
    else if r.route = "/api/state" then
      .ok ((stateMoves d).andThen fun data => .leave (data.bind (d.lib.jsonAnswer .OK)))
    else if r.route = "/api/snapshot" then
      .ok (.look fun gui => .leave <|
        match gui.snapshot d with
        | .ok text => .ok (.make .OK (utf8 text) "application/json; charset=utf-8")
        | .error e =>
          if e.isOneOf (RUNTIME_ERRORS ++ TYPE_ERRORS ++ VALUE_ERRORS) then
            d.lib.errorAnswer .CONFLICT ("cannot snapshot: " ++ d.lib.str e)
          else .error e)
    else .error (d.lib.errorAnswer .NOT_FOUND "not found")

/-- `do_POST`. -/
def postRequestMoves (d : Deployment σ) (scheds : Nat → List Nat) (gui : KernelGUI σ)
    (r : GuiRequest) : Except Answer (Held σ Answer) :=
  match gui.guard d.lib r with
  | .error answer => .error answer
  | .ok () =>
    if r.route ∉ API_PATHS then .error (d.lib.errorAnswer .NOT_FOUND "not found")
    else
      match gui.body d.lib r with
      | .error answer => .error answer
      | .ok data =>
        match gui.callMoves d scheds (GuiCall.ofRoute r.route data) with
        | .error e => .error (answerTo d.lib (.error e))
        | .ok held => .ok (held.andThen fun result => .leave (answerTo d.lib result))

/-- A request, with the orders in which the actions of the ticks it runs happen. -/
structure Visit where
  request : GuiRequest
  scheds : Nat → List Nat

/-- The handler of a GUI. -/
def handling (d : Deployment σ) (gui : KernelGUI σ) (v : Visit) : Except Answer (Held σ Answer) :=
  match v.request.method with
  | .GET => gui.getMoves d v.request
  | .POST => gui.postRequestMoves d v.scheds v.request

/-- The two agree on what is fixed at construction. -/
structure SameFace (gui gui' : KernelGUI σ) : Prop where
  host : gui'.host = gui.host
  port : gui'.port = gui.port
  sender : gui'.sender = gui.sender
  extraHosts : gui'.extraHosts = gui.extraHosts

section

variable {d : Deployment σ} {gui gui' : KernelGUI σ} {scheds : Nat → List Nat}

theorem SameFace.refl (gui : KernelGUI σ) : gui.SameFace gui := ⟨rfl, rfl, rfl, rfl⟩

theorem SameFace.trans {gui'' : KernelGUI σ} (h : gui.SameFace gui') (h' : gui'.SameFace gui'') :
    gui.SameFace gui'' :=
  ⟨h'.host.trans h.host, h'.port.trans h.port, h'.sender.trans h.sender,
    h'.extraHosts.trans h.extraHosts⟩

theorem SameFace.hostAllowed (h : gui.SameFace gui') (lib : PythonLib) :
    gui'.hostAllowed lib = gui.hostAllowed lib := by
  funext host
  cases host with
  | none => rfl
  | some host =>
    simp only [KernelGUI.hostAllowed, allowedHosts, names, h.host, h.port, h.extraHosts]

theorem SameFace.guard (h : gui.SameFace gui') (lib : PythonLib) (r : GuiRequest) :
    gui'.guard lib r = gui.guard lib r := by
  simp only [KernelGUI.guard, h.hostAllowed]

theorem SameFace.body (h : gui.SameFace gui') (lib : PythonLib) (r : GuiRequest) :
    gui'.body lib r = gui.body lib r := by
  have horigin : gui'.crossOrigin lib = gui.crossOrigin lib := by
    funext origin
    cases origin with
    | none => rfl
    | some origin => simp only [crossOrigin, h.hostAllowed]
  simp only [KernelGUI.body, horigin]

theorem SameFace.outgoing (h : gui.SameFace gui') (recipient payload metadata : Value) :
    gui'.outgoing recipient payload metadata = gui.outgoing recipient payload metadata := by
  simp only [KernelGUI.outgoing, h.sender]

/-- `send` posts the message it has made, or raises. -/
theorem send_eq_outgoing (lib : PythonLib) (gui : KernelGUI σ)
    (recipient payload metadata : Value) :
    gui.send lib recipient payload metadata
      = match gui.outgoing recipient payload metadata with
        | .error e => (gui, .error e)
        | .ok m => gui.post lib m := by
  cases recipient with
  | str recipient =>
    by_cases hempty : recipient = ""
    · simp only [send, outgoing, if_pos hempty]
    · cases metadata <;> simp only [send, outgoing, if_neg hempty]
  | _ => rfl

/-- What an operation does when it does not have to wait. -/
theorem perform_eq_callMoves (h : gui.SameFace gui') (call : GuiCall) :
    gui'.perform d scheds call
      = match gui.callMoves d scheds call with
        | .error e => (gui', .error e)
        | .ok held => held.run gui' := by
  cases call with
  | step => exact (run_stepMoves d (scheds 0) gui').symm
  | run maxTicks =>
    cases maxTicks with
    | int n =>
      by_cases hn : 0 ≤ n ∧ n ≤ MAX_RUN_TICKS
      · simp only [perform, callMoves, if_pos hn, run_runMoves d scheds hn]
      · simp only [perform, callMoves, run, if_neg hn]
    | _ => rfl
  | send recipient payload metadata =>
    simp only [perform, callMoves, send_eq_outgoing, h.outgoing]
    cases gui.outgoing recipient payload metadata with
    | error e => rfl
    | ok m => exact (run_postMoves d.lib m gui').symm

theorem alone_getMoves (h : gui.SameFace gui') (r : GuiRequest) :
    Critical.alone (gui.getMoves d r) gui' = ((gui'.doGET d r).gui, (gui'.doGET d r).answer) := by
  rw [getMoves, doGET, h.guard]
  cases gui.guard d.lib r with
  | error answer => rfl
  | ok =>
    simp only
    by_cases hpage : r.route ∈ ["/", "/index.html"]
    · rw [if_pos hpage, if_pos hpage]
      rfl
    · rw [if_neg hpage, if_neg hpage]
      by_cases hstate : r.route = "/api/state"
      · rw [if_pos hstate, if_pos hstate]
        simp only [Critical.alone, Critical.run_andThen, run_stateMoves, Critical.run_leave]
      · rw [if_neg hstate, if_neg hstate]
        by_cases hsnapshot : r.route = "/api/snapshot"
        · rw [if_pos hsnapshot, if_pos hsnapshot]
          simp only [Critical.alone, Critical.run_look, Critical.run_leave]
          cases gui'.snapshot d with
          | ok text => rfl
          | error e => simp only; split <;> rfl
        · rw [if_neg hsnapshot, if_neg hsnapshot]
          rfl

theorem alone_postRequestMoves (h : gui.SameFace gui') (r : GuiRequest) :
    Critical.alone (gui.postRequestMoves d scheds r) gui'
      = ((gui'.doPOST d scheds r).gui, (gui'.doPOST d scheds r).answer) := by
  rw [postRequestMoves, doPOST, h.guard]
  cases gui.guard d.lib r with
  | error answer => rfl
  | ok =>
    simp only
    by_cases hroute : r.route ∉ API_PATHS
    · rw [if_pos hroute, if_pos hroute]
      rfl
    · rw [if_neg hroute, if_neg hroute, h.body]
      cases gui.body d.lib r with
      | error answer => rfl
      | ok data =>
        simp only [perform_eq_callMoves h]
        cases gui.callMoves d scheds (GuiCall.ofRoute r.route data) with
        | error e => rfl
        | ok held => simp only [Critical.alone, Critical.run_andThen, Critical.run_leave]

/-- Alone, the handler is `handle`. -/
theorem apply_handling (d : Deployment σ) (h : gui.SameFace gui') (v : Visit) :
    Monitor.apply (gui.handling d) v gui'
      = ((gui'.handle d v.scheds v.request).gui, (gui'.handle d v.scheds v.request).answer) := by
  unfold Monitor.apply handling handle
  cases v.request.method with
  | GET => exact alone_getMoves h v.request
  | POST => exact alone_postRequestMoves h v.request

/-! ## One after another -/

theorem sameFace_perform (d : Deployment σ) (scheds : Nat → List Nat) (gui : KernelGUI σ)
    (call : GuiCall) : gui.SameFace (gui.perform d scheds call).1 := by
  cases call with
  | step =>
    show gui.SameFace (gui.step d (scheds 0)).1
    unfold step
    split <;> exact ⟨rfl, rfl, rfl, rfl⟩
  | run maxTicks =>
    show gui.SameFace (gui.run d scheds maxTicks).1
    unfold run
    split
    · split
      · split <;> exact ⟨rfl, rfl, rfl, rfl⟩
      · exact .refl gui
    · exact .refl gui
  | send recipient payload metadata =>
    show gui.SameFace (gui.send d.lib recipient payload metadata).1
    rw [send_eq_outgoing]
    split
    · exact .refl gui
    · unfold post
      split <;> exact ⟨rfl, rfl, rfl, rfl⟩

theorem sameFace_handle (d : Deployment σ) (gui : KernelGUI σ) (v : Visit) :
    gui.SameFace (gui.handle d v.scheds v.request).gui := by
  unfold handle
  cases hmethod : v.request.method with
  | GET =>
    simp only [gui.doGET_called d v.request]
    exact .refl gui
  | POST =>
    rcases gui.doPOST_cases d v.scheds hmethod with ⟨-, hgui⟩ | hadmitted
    · simp only [hgui]
      exact .refl gui
    · obtain ⟨data, -, gui', result, hperform, hpost⟩ := hadmitted
      have hface := sameFace_perform d v.scheds gui (.ofRoute v.request.route data)
      rw [hperform] at hface
      simp only [hpost]
      exact hface

/-- The GUI after requests that were handled one after another. -/
def handleAll (d : Deployment σ) (visits : List (Nat × Visit)) (gui : KernelGUI σ) :
    KernelGUI σ :=
  visits.foldl (fun gui p => (gui.handle d p.2.scheds p.2.request).gui) gui

theorem serial_handling (d : Deployment σ) (h : gui.SameFace gui') (visits : List (Nat × Visit)) :
    Monitor.serial (gui.handling d) visits gui' = gui'.handleAll d visits
      ∧ gui.SameFace (gui'.handleAll d visits) := by
  induction visits generalizing gui' with
  | nil => exact ⟨rfl, h⟩
  | cons p visits ih =>
    obtain ⟨hserial, hface⟩ := ih (h.trans (sameFace_handle d gui' p.2))
    refine ⟨?_, hface⟩
    rw [Monitor.serial, List.foldl_cons, apply_handling d h]
    exact hserial

end

/-- The requests of the history `es` were handled one after another, in the order
in which they took the lock. -/
structure HandledInTurn (d : Deployment σ) (gui : KernelGUI σ)
    (es : List (MonitorEvent Visit Answer)) (m : Monitor (KernelGUI σ) Visit Answer) : Prop where
  /-- None was handled twice. -/
  once : ((Monitor.order es).map Prod.fst).Nodup
  /-- The GUI is what they have made of it. -/
  shared : m.holder = none → m.shared = gui.handleAll d (Monitor.order es)
  /-- A request that took the lock is answered as it is in its place, and one that
  did not as it is in any place. -/
  answers : ∀ c answer, .answer c answer ∈ es → ∃ v, .arrive c v ∈ es ∧
    ((∃ before after, Monitor.order es = before ++ (c, v) :: after
        ∧ ((gui.handleAll d before).handle d v.scheds v.request).answer = answer)
      ∨ ∀ before after, Monitor.order es = before ++ after →
        ((gui.handleAll d before).handle d v.scheds v.request).answer = answer
          ∧ ((gui.handleAll d before).handle d v.scheds v.request).gui = gui.handleAll d before)
  /-- A request that was answered before another one came is handled before it. -/
  realTime : ∀ es₁ es₂ c answer d v vc vd, es = es₁ ++ es₂ → .answer c answer ∈ es₁ →
    .arrive d v ∈ es₂ → (c, vc) ∈ Monitor.order es → (d, vd) ∈ Monitor.order es →
      [(c, vc), (d, vd)].Sublist (Monitor.order es)

end KernelGUI

/-! ## Two visitors -/

/-- One steps the kernel and one sends to nobody, at the same time. -/
def stepVisit : KernelGUI.Visit where
  request := stepRequest
  scheds _ := [0, 0]

def strayVisit : KernelGUI.Visit where
  request := strayRequest
  scheds _ := []

end TitoOS
