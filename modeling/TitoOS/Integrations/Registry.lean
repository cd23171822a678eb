import TitoOS.Lib.Transition
import TitoOS.Shutdown.Resources

/-!
# Integrations and who reaches them

`IntegrationRegistry` keeps the drivers of a kernel by name. Agents reach them
through `ctx.call` and through the proxies that `ctx.integration` hands out, on
any number of threads, while others install and uninstall. A thread may also have
a driver itself: it has constructed it, asked the registry for it, taken it out of
a proxy, or been given it. `Deals` interleaves what they do: each block under the
registry's lock is one step, and what comes after it, the method of a driver or its
`close()`, is another.
-/

namespace TitoOS

/-! ## Drivers and proxies -/

/-- The integration objects of a program, by identity. Their constructor refuses
the empty name. `inherited` are the attributes that every object has. -/
structure Drivers where
  nameOf : ObjectId → String
  nameOf_ne : ∀ i, nameOf i ≠ ""
  operations : ObjectId → List String
  inherited : List String := []

namespace Drivers

/-- `', '.join(self.operations) or 'none'`. -/
def available (drivers : Drivers) (i : ObjectId) : String :=
  let joined := ", ".intercalate (drivers.operations i)
  if joined = "" then "none" else joined

/-- `Integration.call`: the method that it runs. -/
def methodOf (drivers : Drivers) (i : ObjectId) (operation : String) : Except Exc String :=
  if operation ∉ drivers.operations i then
    .error (.raised "IntegrationError" ("unknown operation '" ++ operation
      ++ "' on integration '" ++ drivers.nameOf i ++ "'; available: " ++ drivers.available i))
  else .ok operation

end Drivers

/-- What an attribute of an `IntegrationProxy` is. -/
inductive ProxyAttribute where
  | driver (i : ObjectId)
  | name (name : String)
  | operations (names : List String)
  | caller
  | inherited
  | operation (name : String)
  deriving DecidableEq

/-- The attribute of a proxy. What the class or `object` defines is found first;
`__getattr__` sees what is left. -/
def Drivers.getattr (drivers : Drivers) (i : ObjectId) (member : String) :
    Except Exc ProxyAttribute :=
  if member = "_integration" then .ok (.driver i)
  else if member = "name" then .ok (.name (drivers.nameOf i))
  else if member = "operations" then .ok (.operations (drivers.operations i))
  else if member = "call" then .ok .caller
  else if member ∈ drivers.inherited then .ok .inherited
  else if member ∉ drivers.operations i then
    .error (.raised "AttributeError" ("integration '" ++ drivers.nameOf i
      ++ "' does not advertise '" ++ member ++ "'; available: " ++ drivers.available i))
  else .ok (.operation member)

/-! ## The registry -/

/-- `IntegrationRegistry`. A driver is kept under its own name. -/
structure IntegrationRegistry (drivers : Drivers) where
  integrations : Dict String ObjectId := ∅
  named : ∀ name i, integrations.get? name = some i → drivers.nameOf i = name

namespace IntegrationRegistry

variable {drivers : Drivers}

/-- An empty registry. -/
theorem named_empty (name : String) (i : ObjectId)
    (h : (∅ : Dict String ObjectId).get? name = some i) : drivers.nameOf i = name := by
  cases h

instance : EmptyCollection (IntegrationRegistry drivers) := ⟨{ named := named_empty }⟩

theorem named_set (r : IntegrationRegistry drivers) (i : ObjectId) (name : String) (j : ObjectId)
    (h : (r.integrations.set (drivers.nameOf i) i).get? name = some j) :
    drivers.nameOf j = name := by
  rw [Dict.get?_set] at h
  split at h
  · next heq =>
    cases h
    exact heq.symm
  · exact r.named name j h

theorem named_erase (r : IntegrationRegistry drivers) (name name' : String) (i : ObjectId)
    (h : (r.integrations.erase name).get? name' = some i) : drivers.nameOf i = name' := by
  rw [Dict.get?_erase] at h
  split at h
  · cases h
  · exact r.named name' i h

/-- `install`. -/
def install (r : IntegrationRegistry drivers) (i : ObjectId) :
    Except Exc (IntegrationRegistry drivers) :=
  if r.integrations.contains (drivers.nameOf i) then
    .error (.raised "ValueError" ("integration already installed: '" ++ drivers.nameOf i ++ "'"))
  else .ok ⟨r.integrations.set (drivers.nameOf i) i, r.named_set i⟩

/-- The part of `uninstall` under the lock. -/
def pop (r : IntegrationRegistry drivers) (name : String) : IntegrationRegistry drivers :=
  ⟨r.integrations.erase name, r.named_erase name⟩

/-- `get`. -/
def get (r : IntegrationRegistry drivers) (name : String) : Except Exc ObjectId :=
  match r.integrations.get? name with
  | some i => .ok i
  | none =>
    .error (.raised "IntegrationError" ("no integration installed named '" ++ name ++ "'"))

theorem get_eq_ok_iff {r : IntegrationRegistry drivers} {name : String} {i : ObjectId} :
    r.get name = .ok i ↔ r.integrations.get? name = some i := by
  unfold get
  cases r.integrations.get? name <;> simp

theorem install_eq_ok {r r' : IntegrationRegistry drivers} {i : ObjectId}
    (h : r.install i = .ok r') : r.integrations.get? (drivers.nameOf i) = none
      ∧ r'.integrations = r.integrations.set (drivers.nameOf i) i := by
  unfold install at h
  split at h
  · cases h
  · next hnew =>
    cases h
    refine ⟨?_, rfl⟩
    rwa [Dict.contains_iff, ← Dict.get?_eq_none_iff] at hnew

end IntegrationRegistry

/-! ## Dealings -/

/-- What a thread is doing with an integration. -/
inductive Dealing where
  | idle
  /-- In `Integration.call`. -/
  | calling (i : ObjectId) (operation : String)
  /-- In a method of a driver. -/
  | running (i : ObjectId) (method : String)
  /-- In `uninstall`, with what it has popped. -/
  | removing (i : ObjectId)
  /-- In `IntegrationRegistry.close`, with what it has still to close. -/
  | sweeping (rest : List ObjectId)
  deriving DecidableEq

/-- What the threads of a program do with the integrations. `handed` are the
drivers that proxies have been handed out for, which any thread may use, and `held`
says which thread has which driver itself. -/
structure Dealings (drivers : Drivers) where
  registry : IntegrationRegistry drivers := ∅
  threads : List Dealing
  handed : List ObjectId := []
  held : List (Nat × ObjectId) := []

/-- A step that does not raise, or leaves the integrations another way than it
found them. -/
inductive DealingEvent where
  /-- The driver `i` is constructed. -/
  | make (t : Nat) (i : ObjectId)
  | install (t : Nat) (i : ObjectId)
  /-- `IntegrationRegistry.get(name)` returns the driver `i`. -/
  | get (t : Nat) (name : String) (i : ObjectId)
  /-- `iter(registry)` gives all that is installed. -/
  | iterate (t : Nat)
  /-- A thread lets another one have a driver. -/
  | pass (t t' : Nat) (i : ObjectId)
  /-- `ctx.call(name, operation)` finds the driver `i`. -/
  | call (t : Nat) (name operation : String) (i : ObjectId)
  /-- `ctx.integration(name)` finds the driver `i`. -/
  | handle (t : Nat) (name : String) (i : ObjectId)
  | read (t : Nat) (i : ObjectId) (member : String)
  /-- `proxy.call(operation)`, or a call of the method `proxy.operation`, or
  `Integration.call` of the driver itself. -/
  | invoke (t : Nat) (i : ObjectId) (operation : String)
  /-- A method of the driver begins. -/
  | start (t : Nat) (i : ObjectId) (method : String)
  | refuse (t : Nat) (i : ObjectId) (operation : String)
  | finish (t : Nat)
  /-- `uninstall(name)` pops the driver `i`. -/
  | remove (t : Nat) (name : String) (i : ObjectId)
  /-- `uninstall` closes what it has popped. -/
  | dispose (t : Nat) (i : ObjectId)
  /-- `IntegrationRegistry.close` looks what there is. -/
  | sweep (t : Nat)
  | close (t : Nat) (i : ObjectId)
  /-- It is done, or a `BaseException` ends it. -/
  | swept (t : Nat)
  deriving DecidableEq

namespace Dealings

variable {drivers : Drivers}

/-- `n` threads, and nothing installed. -/
def fresh (n : Nat) : Dealings drivers where
  threads := List.replicate n .idle

/-- The thread `t` goes on to `doing`. -/
def put (s : Dealings drivers) (t : Nat) (doing : Dealing) : Dealings drivers :=
  { s with threads := s.threads.set t doing }

/-- The thread `t` has these drivers from now on. -/
def take (s : Dealings drivers) (t : Nat) (is : List ObjectId) : Dealings drivers :=
  { s with held := is.map (t, ·) ++ s.held }

/-- A step of one thread. -/
inductive Deals (drivers : Drivers) : Dealings drivers → DealingEvent → Dealings drivers → Prop
  | make {s : Dealings drivers} {t : Nat} {i : ObjectId} : s.threads[t]? = some .idle →
      Deals drivers s (.make t i) (s.take t [i])
  -- what it returns is its argument
  | install {s : Dealings drivers} {t : Nat} {i : ObjectId}
      {registry : IntegrationRegistry drivers} : s.threads[t]? = some .idle → (t, i) ∈ s.held →
        s.registry.install i = .ok registry → Deals drivers s (.install t i) { s with registry }
  | get {s : Dealings drivers} {t : Nat} {name : String} {i : ObjectId} :
      s.threads[t]? = some .idle → s.registry.get name = .ok i →
        Deals drivers s (.get t name i) (s.take t [i])
  | iterate {s : Dealings drivers} {t : Nat} : s.threads[t]? = some .idle →
      Deals drivers s (.iterate t) (s.take t s.registry.integrations.values)
  | pass {s : Dealings drivers} {t t' : Nat} {i : ObjectId} : s.threads[t]? = some .idle →
      (t, i) ∈ s.held → Deals drivers s (.pass t t' i) (s.take t' [i])
  | call {s : Dealings drivers} {t : Nat} {name operation : String} {i : ObjectId} :
      s.threads[t]? = some .idle → s.registry.get name = .ok i →
        Deals drivers s (.call t name operation i) (s.put t (.calling i operation))
  | handle {s : Dealings drivers} {t : Nat} {name : String} {i : ObjectId} :
      s.threads[t]? = some .idle → s.registry.get name = .ok i →
        Deals drivers s (.handle t name i) { s with handed := i :: s.handed }
  | reveal {s : Dealings drivers} {t : Nat} {i : ObjectId} {member : String} :
      s.threads[t]? = some .idle → i ∈ s.handed →
        drivers.getattr i member = .ok (.driver i) →
          Deals drivers s (.read t i member) (s.take t [i])
  | read {s : Dealings drivers} {t : Nat} {i : ObjectId} {member : String} :
      s.threads[t]? = some .idle → i ∈ s.handed →
        drivers.getattr i member ≠ .ok (.driver i) →
          Deals drivers s (.read t i member) s
  | invoke {s : Dealings drivers} {t : Nat} {i : ObjectId} {operation : String} :
      s.threads[t]? = some .idle → i ∈ s.handed →
        Deals drivers s (.invoke t i operation) (s.put t (.calling i operation))
  | address {s : Dealings drivers} {t : Nat} {i : ObjectId} {operation : String} :
      s.threads[t]? = some .idle → (t, i) ∈ s.held →
        Deals drivers s (.invoke t i operation) (s.put t (.calling i operation))
  | start {s : Dealings drivers} {t : Nat} {i : ObjectId} {operation method : String} :
      s.threads[t]? = some (.calling i operation) → drivers.methodOf i operation = .ok method →
        Deals drivers s (.start t i method) (s.put t (.running i method))
  | refuse {s : Dealings drivers} {t : Nat} {i : ObjectId} {operation : String} {e : Exc} :
      s.threads[t]? = some (.calling i operation) → drivers.methodOf i operation = .error e →
        Deals drivers s (.refuse t i operation) (s.put t .idle)
  | direct {s : Dealings drivers} {t : Nat} {i : ObjectId} {method : String} :
      s.threads[t]? = some .idle → (t, i) ∈ s.held →
        Deals drivers s (.start t i method) (s.put t (.running i method))
  | finish {s : Dealings drivers} {t : Nat} {i : ObjectId} {method : String} :
      s.threads[t]? = some (.running i method) → Deals drivers s (.finish t) (s.put t .idle)
  | remove {s : Dealings drivers} {t : Nat} {name : String} {i : ObjectId} :
      s.threads[t]? = some .idle → s.registry.integrations.get? name = some i →
        Deals drivers s (.remove t name i)
          { s.put t (.removing i) with registry := s.registry.pop name }
  | dispose {s : Dealings drivers} {t : Nat} {i : ObjectId} :
      s.threads[t]? = some (.removing i) → Deals drivers s (.dispose t i) (s.put t .idle)
  | sweep {s : Dealings drivers} {t : Nat} : s.threads[t]? = some .idle →
      Deals drivers s (.sweep t) (s.put t (.sweeping s.registry.integrations.values))
  | close {s : Dealings drivers} {t : Nat} {i : ObjectId} {rest : List ObjectId} :
      s.threads[t]? = some (.sweeping (i :: rest)) →
        Deals drivers s (.close t i) (s.put t (.sweeping rest))
  | swept {s : Dealings drivers} {t : Nat} {rest : List ObjectId} :
      s.threads[t]? = some (.sweeping rest) → Deals drivers s (.swept t) (s.put t .idle)

end Dealings

end TitoOS
