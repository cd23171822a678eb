import TitoOS.Lib.Program
import TitoOS.Message

/-!
# Closing everything

What one closing pass of `shutdown` calls, and what it raises. The close hooks
are code from outside: each call returns or raises as it likes. Two loops
(`IntegrationRegistry.close` and `_close_platform_adapters`) go on after a
failure, and `_close_resources` decides whose failure is raised.
-/

namespace TitoOS

/-- The identity of an integration or of an adapter. -/
abbrev ObjectId := Nat

/-- What `shutdown` calls. -/
inductive Closer where
  /-- `backend.shutdown(wait=True)` -/
  | backend
  /-- `integration.close()` -/
  | integration (i : ObjectId)
  /-- `adapter.close()` -/
  | adapter (i : ObjectId)
  deriving DecidableEq

/-- What is raised: an exception of a close hook, or `_PlatformAdapterCloseError`. -/
inductive CloseError where
  | raised (e : Exc)
  | platformAdapters (errors : List CloseError)

namespace CloseError

mutual

/-- `str(error)`. -/
def text : CloseError → String
  | .raised e => e.text
  | .platformAdapters errors =>
    "failed to close platform adapter(s): " ++ "; ".intercalate (texts errors)

/-- `str(error) for error in errors`. -/
def texts : List CloseError → List String
  | [] => []
  | e :: rest => e.text :: texts rest

end

/-- `isinstance(error, Exception)`. -/
def isException : CloseError → Bool
  | .raised e => e.isException
  | .platformAdapters _ => true

end CloseError

/-- Code that calls close hooks. -/
abbrev Closes := Program Closer (fun _ => Unit) CloseError

/-- What a kernel has to close. An integration is installed under its own name. -/
structure Resources where
  /-- `integration.name` -/
  nameOf : ObjectId → String
  /-- `IntegrationRegistry._integrations` -/
  integrations : Dict String ObjectId := ∅
  installed : ∀ name i, integrations.get? name = some i → nameOf i = name
  /-- `getattr(agent, "adapter", None)` of each registered agent -/
  adapterOf : Dict String (Option ObjectId) := ∅
  /-- `callable(getattr(adapter, "close", None))` -/
  hasClose : ObjectId → Bool

namespace Resources

/-- `IntegrationRegistry.install`. -/
def install (r : Resources) (i : ObjectId) : Except Exc Resources :=
  if r.integrations.contains (r.nameOf i) then
    .error (.raised "ValueError" ("integration already installed: '" ++ r.nameOf i ++ "'"))
  else
    .ok { r with
      integrations := r.integrations.set (r.nameOf i) i
      installed := by
        intro name j hj
        rw [Dict.get?_set] at hj
        split at hj
        · cases hj
          exact (‹name = _›).symm
        · exact r.installed name j hj }

/-- `IntegrationRegistry.close`. -/
def closeIntegrations (r : Resources) : Closes Unit := do
  let errors ← Program.attemptAll CloseError.isException (r.integrations.values.map .integration)
  match errors with
  | [] => pure ()
  | e :: _ => .throw e

/-- One turn of the loop that gathers the adapters to close. -/
def gather (r : Resources) (adapters : Dict ObjectId ObjectId) : Option ObjectId →
    Dict ObjectId ObjectId
  | some a => if r.hasClose a && !adapters.contains a then adapters.set a a else adapters
  | none => adapters

/-- The adapters that `_close_platform_adapters` closes. -/
def platformAdapters (r : Resources) : List ObjectId :=
  (r.adapterOf.values.foldl r.gather ∅).values

/-- `_close_platform_adapters`. -/
def closePlatformAdapters (r : Resources) : Closes Unit := do
  let errors ← Program.attemptAll CloseError.isException (r.platformAdapters.map .adapter)
  match errors with
  | [] => pure ()
  | _ :: _ => .throw (.platformAdapters errors)

/-- `_close_resources`. -/
def closeResources (r : Resources) (suppressErrors : Bool) : Closes Unit :=
  if suppressErrors then do
    r.closeIntegrations.catching fun _ => pure ()
    r.closePlatformAdapters.catching fun _ => pure ()
  else do
    r.closeIntegrations.catching fun e => do
      r.closePlatformAdapters.catching fun e' =>
        if e'.isException then pure () else .throw e'
      .throw e
    r.closePlatformAdapters

/-- `shutdown(wait=True)`, where `pending` says whether a deferred shutdown is
still running: that one does the whole job. -/
def shutdown (r : Resources) (pending : Bool) : Closes Unit :=
  if pending then pure ()
  else (Program.perform .backend).andThen fun
    | .error e => do
      r.closeResources true
      .throw e
    | .ok () => r.closeResources false

/-! ## What is to be closed -/

/-- The calls of a closing pass. -/
def closers (r : Resources) : List Closer :=
  .backend :: r.integrations.values.map .integration ++ r.platformAdapters.map .adapter

theorem integrations_nodup (r : Resources) : r.integrations.values.Nodup := by
  have hkeys : r.integrations.keys = r.integrations.values.map r.nameOf := by
    rw [Dict.keys, Dict.values, List.map_map]
    refine List.map_congr_left fun e he => ?_
    exact (r.installed e.1 e.2 (Dict.get?_eq_some_iff.mpr he)).symm
  exact (hkeys ▸ r.integrations.keys_nodup).of_map

/-- Each adapter is gathered under its own identity. -/
theorem gather_keys (r : Resources) {adapters : Dict ObjectId ObjectId}
    (hself : adapters.values = adapters.keys) (agent : Option ObjectId) :
    (r.gather adapters agent).values = (r.gather adapters agent).keys
      ∧ ∀ i, i ∈ (r.gather adapters agent).keys
        ↔ i ∈ adapters.keys ∨ (some i = agent ∧ r.hasClose i = true) := by
  cases agent with
  | none => exact ⟨hself, by simp [gather]⟩
  | some a =>
    unfold gather
    by_cases hclose : r.hasClose a = true
    · by_cases hmem : a ∈ adapters.keys
      · have hcontains := Dict.contains_iff.mpr hmem
        simp only [hclose, hcontains, Bool.not_true, Bool.and_false, Bool.false_eq_true, if_false]
        refine ⟨hself, fun i => ⟨.inl, ?_⟩⟩
        rintro (hi | ⟨heq, -⟩)
        · exact hi
        · exact Option.some.inj heq ▸ hmem
      · have hcontains : adapters.contains a = false := by
          rw [← Bool.not_eq_true, Dict.contains_iff]
          exact hmem
        simp only [hclose, hcontains, Bool.not_false, Bool.and_self, if_true]
        have hvalues : (adapters.set a a).values = adapters.values ++ [a] := by
          simp [Dict.values, Dict.entries_set_of_not_mem hmem]
        rw [hvalues, Dict.keys_set_of_not_mem hmem, hself]
        refine ⟨rfl, fun i => ?_⟩
        rw [List.mem_append, List.mem_singleton, Option.some.injEq]
        refine or_congr_right ⟨fun hi => ⟨hi, hi ▸ hclose⟩, And.left⟩
    · simp only [hclose, Bool.false_and, Bool.false_eq_true, if_false]
      refine ⟨hself, fun i => ⟨.inl, ?_⟩⟩
      rintro (hi | ⟨heq, hi⟩)
      · exact hi
      · rw [Option.some.inj heq] at hi
        exact absurd hi hclose

theorem gather_all (r : Resources) (agents : List (Option ObjectId))
    {adapters : Dict ObjectId ObjectId} (hself : adapters.values = adapters.keys) :
    (agents.foldl r.gather adapters).values = (agents.foldl r.gather adapters).keys
      ∧ ∀ i, i ∈ (agents.foldl r.gather adapters).keys
        ↔ i ∈ adapters.keys ∨ (some i ∈ agents ∧ r.hasClose i = true) := by
  induction agents generalizing adapters with
  | nil => exact ⟨hself, by simp⟩
  | cons agent rest ih =>
    obtain ⟨hself', hone⟩ := r.gather_keys hself agent
    obtain ⟨hvalues, hall⟩ := ih hself'
    refine ⟨hvalues, fun i => ?_⟩
    rw [List.foldl_cons, hall, hone, List.mem_cons]
    tauto

theorem platformAdapters_nodup (r : Resources) : r.platformAdapters.Nodup := by
  rw [platformAdapters, (r.gather_all r.adapterOf.values rfl).1]
  exact Dict.keys_nodup _

/-- The adapters to close are those of the agents that have a `close`. -/
theorem mem_platformAdapters (r : Resources) {i : ObjectId} :
    i ∈ r.platformAdapters ↔ some i ∈ r.adapterOf.values ∧ r.hasClose i = true := by
  obtain ⟨hvalues, hmem⟩ := r.gather_all r.adapterOf.values
    (rfl : (∅ : Dict ObjectId ObjectId).values = (∅ : Dict ObjectId ObjectId).keys)
  rw [platformAdapters, hvalues, hmem]
  simp

theorem closers_nodup (r : Resources) : r.closers.Nodup := by
  have hintegrations := r.integrations_nodup.map (f := Closer.integration)
    fun _ _ h => Closer.integration.inj h
  have hadapters := r.platformAdapters_nodup.map (f := Closer.adapter)
    fun _ _ h => Closer.adapter.inj h
  simp [closers, List.nodup_append, hintegrations, hadapters]

end Resources

/-! ## Whose failure is raised -/

namespace Closer

def isBackend : Closer → Bool
  | backend => true
  | _ => false

def isIntegration : Closer → Bool
  | integration _ => true
  | _ => false

def isAdapter : Closer → Bool
  | adapter _ => true
  | _ => false

end Closer

section

variable {W : Type}

/-- A call of a close hook, and how it ended. -/
abbrev CloseEvent (W : Type) := Program.CallEvent W Closer (fun _ => Unit) CloseError

/-- The first exception of the calls, if there is one. -/
def firstRaised (es : List (CloseEvent W)) : Except CloseError Unit :=
  match raisedBy es with
  | [] => .ok ()
  | e :: _ => .error e

/-- All exceptions of the calls in one, if there are any. -/
def allRaised (es : List (CloseEvent W)) : Except CloseError Unit :=
  match raisedBy es with
  | [] => .ok ()
  | e :: rest => .error (.platformAdapters (e :: rest))

/-- The exception of the backend, or else the first one of an integration, or
else all of the adapters. -/
def verdict (es : List (CloseEvent W)) : Except CloseError Unit := do
  firstRaised (es.filter fun e => e.op.isBackend)
  firstRaised (es.filter fun e => e.op.isIntegration)
  allRaised (es.filter fun e => e.op.isAdapter)

theorem firstRaised_eq_ok_iff {es : List (CloseEvent W)} :
    firstRaised es = .ok () ↔ ∀ e ∈ es, e.raised? = none := by
  rw [← raisedBy_eq_nil_iff, firstRaised]
  cases raisedBy es <;> simp

theorem allRaised_eq_ok_iff {es : List (CloseEvent W)} :
    allRaised es = .ok () ↔ ∀ e ∈ es, e.raised? = none := by
  rw [← raisedBy_eq_nil_iff, allRaised]
  cases raisedBy es <;> simp

theorem bind_eq_ok_unit_iff {x y : Except CloseError Unit} :
    (do x; y) = .ok () ↔ x = .ok () ∧ y = .ok () := by
  cases x with
  | error e => simp [bind, Except.bind]
  | ok => simp [bind, Except.bind]

/-- A closing pass raises just when one of its calls does. -/
theorem verdict_eq_ok_iff (es : List (CloseEvent W)) :
    verdict es = .ok () ↔ ∀ e ∈ es, e.raised? = none := by
  rw [verdict, bind_eq_ok_unit_iff, bind_eq_ok_unit_iff, firstRaised_eq_ok_iff,
    firstRaised_eq_ok_iff, allRaised_eq_ok_iff]
  simp only [List.mem_filter, and_imp]
  constructor
  · rintro ⟨hbackend, hintegration, hadapter⟩ e he
    cases hop : e.op with
    | backend => exact hbackend e he (by rw [hop]; rfl)
    | integration i => exact hintegration e he (by rw [hop]; rfl)
    | adapter i => exact hadapter e he (by rw [hop]; rfl)
  · intro h
    exact ⟨fun e he _ => h e he, fun e he _ => h e he, fun e he _ => h e he⟩

/-- A part of a closing pass looks at its own calls only. -/
theorem filter_of_ops {ops : List Closer} {es : List (CloseEvent W)} (hes : es.map Event.op = ops)
    {p : Closer → Bool} :
    ((∀ op ∈ ops, p op = true) → (es.filter fun e => p e.op) = es)
    ∧ ((∀ op ∈ ops, p op = false) → (es.filter fun e => p e.op) = []) := by
  subst hes
  constructor
  · intro h
    exact List.filter_eq_self.mpr fun e he => h _ (List.mem_map_of_mem he)
  · intro h
    exact List.filter_eq_nil_iff.mpr fun e he => by simp [h _ (List.mem_map_of_mem he)]

/-- The verdict on a closing pass, part by part. -/
theorem verdict_of_parts (backend : CloseEvent W) {integrations adapters : List (CloseEvent W)}
    {is as : List ObjectId} (hbackend : backend.op = .backend)
    (hintegrations : integrations.map Event.op = is.map .integration)
    (hadapters : adapters.map Event.op = as.map .adapter) :
    verdict (backend :: integrations ++ adapters)
      = (do firstRaised [backend]; firstRaised integrations; allRaised adapters) := by
  have hi := @filter_of_ops W _ _ hintegrations
  have ha := @filter_of_ops W _ _ hadapters
  have hb := @filter_of_ops W [.backend] [backend] (by simp [hbackend])
  have hfilter : ∀ p : Closer → Bool,
      ((backend :: integrations ++ adapters).filter fun e => p e.op)
        = ([backend].filter fun e => p e.op) ++ (integrations.filter fun e => p e.op)
          ++ adapters.filter fun e => p e.op := by
    intro p
    rw [← List.filter_append, ← List.filter_append]
    rfl
  rw [verdict, hfilter, hfilter, hfilter,
    (hb (p := Closer.isBackend)).1 (by simp [Closer.isBackend]),
    (hi (p := Closer.isBackend)).2 (by simp [Closer.isBackend]),
    (ha (p := Closer.isBackend)).2 (by simp [Closer.isBackend]),
    (hb (p := Closer.isIntegration)).2 (by simp [Closer.isIntegration]),
    (hi (p := Closer.isIntegration)).1 (by simp [Closer.isIntegration]),
    (ha (p := Closer.isIntegration)).2 (by simp [Closer.isIntegration]),
    (hb (p := Closer.isAdapter)).2 (by simp [Closer.isAdapter]),
    (hi (p := Closer.isAdapter)).2 (by simp [Closer.isAdapter]),
    (ha (p := Closer.isAdapter)).1 (by simp [Closer.isAdapter])]
  simp

end

/-! ## What a closing pass does -/

namespace Resources

variable {W : Type} {env : Surroundings W Closer (fun _ => Unit) CloseError} {r : Resources}
  {past : List (CloseEvent W)} {w : W} {Q : Except CloseError Unit → List (CloseEvent W) → W → Prop}

/-- The close hooks raise exceptions, if anything. -/
def RaisesExceptions (env : Surroundings W Closer (fun _ => Unit) CloseError) : Prop :=
  ∀ w op e w', env.answers w op (.error e) w' → e.isException = true

theorem closeIntegrations_guarded (hexc : RaisesExceptions env)
    (hQ : ∀ es w', es.map Event.op = r.integrations.values.map .integration →
      Q (firstRaised es) (past ++ es) w') :
    r.closeIntegrations.Guarded env (fun _ _ => True) Q past w := by
  refine .bind (.attemptAll (fun op _ v e w' => hexc v op e w') fun es w' hes => ?_)
  have hpost := hQ es w' hes
  unfold firstRaised at hpost
  cases hraised : raisedBy es <;> rw [hraised] at hpost <;> exact hpost

theorem closePlatformAdapters_guarded (hexc : RaisesExceptions env)
    (hQ : ∀ es w', es.map Event.op = r.platformAdapters.map .adapter →
      Q (allRaised es) (past ++ es) w') :
    r.closePlatformAdapters.Guarded env (fun _ _ => True) Q past w := by
  refine .bind (.attemptAll (fun op _ v e w' => hexc v op e w') fun es w' hes => ?_)
  have hpost := hQ es w' hes
  unfold allRaised at hpost
  cases hraised : raisedBy es <;> rw [hraised] at hpost <;> exact hpost

/-- What is raised when all adapters have been closed is an exception. -/
theorem isException_of_allRaised {es : List (CloseEvent W)} {e : CloseError}
    (h : allRaised es = .error e) : e.isException = true := by
  unfold allRaised at h
  split at h <;> cases h
  rfl

theorem closeResources_guarded (hexc : RaisesExceptions env) (suppressErrors : Bool)
    (hQ : ∀ es fs w', es.map Event.op = r.integrations.values.map .integration →
      fs.map Event.op = r.platformAdapters.map .adapter →
      Q (if suppressErrors then .ok () else do firstRaised es; allRaised fs)
        (past ++ es ++ fs) w') :
    (r.closeResources suppressErrors).Guarded env (fun _ _ => True) Q past w := by
  cases suppressErrors with
  | true =>
    simp only [if_true] at hQ
    have hadapters : ∀ es w', es.map Event.op = r.integrations.values.map .integration →
        (r.closePlatformAdapters.catching fun _ => pure ()).Guarded env (fun _ _ => True) Q
          (past ++ es) w' := by
      intro es w' hes
      refine .catching (closePlatformAdapters_guarded hexc fun fs w'' hfs => ?_)
      cases allRaised fs with
      | ok | error => exact hQ es fs w'' hes hfs
    refine .bind (.catching (closeIntegrations_guarded hexc fun es w' hes => ?_))
    cases firstRaised es with
    | ok | error => exact hadapters es w' hes
  | false =>
    simp only [Bool.false_eq_true, if_false] at hQ
    refine .bind (.catching (closeIntegrations_guarded hexc fun es w' hes => ?_))
    cases hfirst : firstRaised es with
    | ok =>
      refine closePlatformAdapters_guarded hexc fun fs w'' hfs => ?_
      have hpost := hQ es fs w'' hes hfs
      rw [hfirst] at hpost
      exact hpost
    | error e =>
      -- the adapters are closed all the same, and their failures only logged
      refine .bind (.catching (closePlatformAdapters_guarded hexc fun fs w'' hfs => ?_))
      have hpost := hQ es fs w'' hes hfs
      rw [hfirst] at hpost
      cases hall : allRaised fs with
      | ok => exact hpost
      | error e' =>
        simp only [isException_of_allRaised hall, if_true]
        exact hpost

/-- What a closing pass calls and what becomes of it. -/
theorem shutdown_guarded (hexc : RaisesExceptions env) :
    (r.shutdown false).Guarded env (fun _ _ => True)
      (fun outcome es _ => es.map Event.op = r.closers ∧ outcome = verdict es) [] w := by
  have hall : ∀ (backend : CloseEvent W) (es fs : List (CloseEvent W)), backend.op = .backend →
      es.map Event.op = r.integrations.values.map .integration →
      fs.map Event.op = r.platformAdapters.map .adapter →
      (backend :: es ++ fs).map Event.op = r.closers := by
    intro backend es fs hbackend hes hfs
    simp [closers, hbackend, hes, hfs]
  refine .andThen (.perform fun v answer w' _ _ => ⟨trivial, ?_⟩)
  cases answer with
  | ok =>
    refine closeResources_guarded hexc false fun es fs u hes hfs => ⟨hall _ es fs rfl hes hfs, ?_⟩
    exact (verdict_of_parts ⟨v, .backend, .ok (), w'⟩ rfl hes hfs).symm
  | error e =>
    refine .bind (closeResources_guarded hexc true fun es fs u hes hfs => ?_)
    refine ⟨hall _ es fs rfl hes hfs, ?_⟩
    exact (verdict_of_parts ⟨v, .backend, .error e, w'⟩ rfl hes hfs).symm

end Resources

open Resources

/-- What has become of a closing pass: its calls are those of the backend, of each
installed integration and of each distinct adapter that has a `close`, once each
in this order, and it has raised the exception of the backend, or else the first
one of an integration, or else all of the adapters. -/
structure AllClosed {W : Type} (r : Resources) (es : List (CloseEvent W))
    (outcome : Except CloseError Unit) : Prop where
  calls : es.map Event.op
    = .backend :: r.integrations.values.map .integration ++ r.platformAdapters.map .adapter
  once : (es.map Event.op).Nodup
  adapters : ∀ i, i ∈ r.platformAdapters ↔ some i ∈ r.adapterOf.values ∧ r.hasClose i = true
  judged : outcome = verdict es
  raises_iff : (∃ e, outcome = .error e) ↔ ∃ e ∈ es, e.raised?.isSome = true

theorem AllClosed.of_calls {W : Type} {r : Resources} {es : List (CloseEvent W)}
    {outcome : Except CloseError Unit} (hops : es.map Event.op = r.closers)
    (houtcome : outcome = verdict es) : AllClosed r es outcome where
  calls := hops
  once := hops ▸ r.closers_nodup
  adapters := fun _ => r.mem_platformAdapters
  judged := houtcome
  raises_iff := by
    have hok := verdict_eq_ok_iff es
    rw [← houtcome] at hok
    cases outcome with
    | ok =>
      have hnone := hok.mp rfl
      refine ⟨nofun, ?_⟩
      rintro ⟨e, he, hsome⟩
      rw [hnone e he] at hsome
      cases hsome
    | error e =>
      refine ⟨fun _ => ?_, fun _ => ⟨e, rfl⟩⟩
      by_contra hno
      refine absurd (hok.mpr fun e he => ?_) nofun
      rw [← Option.not_isSome_iff_eq_none]
      exact fun hsome => hno ⟨e, he, hsome⟩

/-- **Shutdown closes everything exactly once**, whatever fails. With no deferred
shutdown pending, and each close hook returning or raising an exception, whichever
it does, `shutdown` comes to its end, and has then called each of them once and
raised what it should. -/
theorem shutdown_closes_everything {W : Type}
    {env : Surroundings W Closer (fun _ => Unit) CloseError} (hexc : RaisesExceptions env)
    (hanswers : ∀ w op, ∃ v answer w', env.interferes w v ∧ env.answers v op answer w')
    (r : Resources) (w : W) :
    (∃ es outcome w', Program.Exec env (r.shutdown false) w es (Program.done outcome) w')
    ∧ ∀ es outcome w', Program.Exec env (r.shutdown false) w es (Program.done outcome) w' →
      AllClosed r es outcome := by
  refine ⟨Program.exists_exec hanswers _ w, fun es outcome w' hexec => ?_⟩
  obtain ⟨hops, houtcome⟩ := (shutdown_guarded hexc).outcome hexec
  exact .of_calls hops houtcome

/-! ## A failing pass -/

/-- Two integrations and two agents that share an adapter. -/
def furnished : Resources where
  nameOf i := if i = 0 then "http" else "files"
  integrations := Dict.ofList [("http", 0), ("files", 1)]
  installed := by
    intro name i hi
    rw [Dict.get?_eq_some_iff] at hi
    have hmem := Dict.mem_of_mem_ofList hi
    simp only [List.mem_cons, Prod.mk.injEq, List.not_mem_nil, or_false] at hmem
    obtain ⟨rfl, rfl⟩ | ⟨rfl, rfl⟩ := hmem <;> rfl
  adapterOf := Dict.ofList [("first", some 7), ("plain", none), ("second", some 7)]
  hasClose _ := true

/-- The second integration and the adapter fail, and nothing else. -/
def failing : Surroundings Unit Closer (fun _ => Unit) CloseError where
  answers _ op answer _ := answer = match op with
    | .integration 1 => .error (.raised (.raised "OSError" "busy"))
    | .adapter _ => .error (.raised (.raised "RuntimeError" "close failed"))
    | _ => .ok ()
  interferes _ _ := True

theorem shutdown_closes_everything_furnished :
    (∃ es outcome w', Program.Exec failing (furnished.shutdown false) () es
      (Program.done outcome) w')
    ∧ ∀ es outcome w', Program.Exec failing (furnished.shutdown false) () es
      (Program.done outcome) w' → AllClosed furnished es outcome := by
  refine shutdown_closes_everything ?_ (fun w op => ⟨(), _, (), trivial, rfl⟩) furnished ()
  intro w op e w' hanswer
  simp only [failing] at hanswer
  split at hanswer <;> cases hanswer <;> rfl

end TitoOS
