import Mathlib.Logic.Function.Basic
import TitoOS.Integrations.Registry

/-!
# What runs on a driver, and who closes it

Whatever threads do with the integrations of a kernel, in any order, the methods
that a thread begins on a driver are operations that it advertises, got through the
registry while it was installed, unless it has the driver itself; and `Got` says how
it came by it (`methods_accounted`). And every driver that is taken out of the registry is closed
once for it (`closings_accounted`).
-/

namespace TitoOS

namespace Dealings

variable {drivers : Drivers} {s s' : Dealings drivers} {e : DealingEvent}
  {past : List DealingEvent} {t : Nat} {i : ObjectId}

/-! ## The registry of a history -/

/-- What is installed under each name, after one more step. -/
def installs (drivers : Drivers) (installed : String → Option ObjectId) :
    DealingEvent → String → Option ObjectId
  | .install _ i => Function.update installed (drivers.nameOf i) (some i)
  | .remove _ name _ => Function.update installed name none
  | _ => installed

/-- What is installed under each name, after the steps `past`. -/
def installedBy (drivers : Drivers) (past : List DealingEvent) : String → Option ObjectId :=
  past.foldl (installs drivers) fun _ => none

theorem installedBy_snoc (drivers : Drivers) (past : List DealingEvent) (e : DealingEvent) :
    installedBy drivers (past ++ [e]) = installs drivers (installedBy drivers past) e := by
  simp [installedBy]

/-- A step leaves the registry as it is, or does to it what the history says. -/
theorem Deals.registry (h : Deals drivers s e s') :
    s'.registry.integrations.get? = installs drivers s.registry.integrations.get? e := by
  cases h with
  | install _ _ hok =>
    obtain ⟨-, heq⟩ := IntegrationRegistry.install_eq_ok hok
    funext name
    rw [heq, Dict.get?_set, installs, Function.update_apply]
  | @remove t name i =>
    funext name'
    show (s.registry.integrations.erase name).get? name' = _
    rw [Dict.get?_erase, installs, Function.update_apply]
  | make | get | iterate | pass | call | handle | reveal | read | invoke | address | start | refuse
  | direct | finish | dispose | sweep | close | swept => rfl

/-- Something happened in `past` while the driver `i` was installed. -/
def WhileInstalled (drivers : Drivers) (past : List DealingEvent) (i : ObjectId)
    (P : DealingEvent → Prop) : Prop :=
  ∃ before e after, past = before ++ e :: after ∧ P e
    ∧ installedBy drivers before (drivers.nameOf i) = some i

theorem WhileInstalled.snoc {P : DealingEvent → Prop} (h : WhileInstalled drivers past i P)
    (e : DealingEvent) : WhileInstalled drivers (past ++ [e]) i P := by
  obtain ⟨before, e', after, rfl, hP, hinstalled⟩ := h
  exact ⟨before, e', after ++ [e], by simp, hP, hinstalled⟩

theorem WhileInstalled.mono {P Q : DealingEvent → Prop} (h : WhileInstalled drivers past i P)
    (hPQ : ∀ e, P e → Q e) : WhileInstalled drivers past i Q := by
  obtain ⟨before, e, after, hpast, hP, hinstalled⟩ := h
  exact ⟨before, e, after, hpast, hPQ e hP, hinstalled⟩

/-! ## How a thread got where it is -/

/-- The thread `t` asked the registry for the operation of `i`, or somebody was
handed a proxy. -/
def Asked (drivers : Drivers) (t : Nat) (i : ObjectId) (operation : String) (e : DealingEvent) :
    Prop :=
  e = .call t (drivers.nameOf i) operation i ∨ ∃ t', e = .handle t' (drivers.nameOf i) i

/-- Somebody was handed a proxy. -/
def Handed (drivers : Drivers) (i : ObjectId) (e : DealingEvent) : Prop :=
  ∃ t, e = .handle t (drivers.nameOf i) i

/-- How the thread `t` came to have the driver `i` itself. -/
inductive Got (drivers : Drivers) (past : List DealingEvent) (i : ObjectId) : Nat → Prop
  | made {t : Nat} : .make t i ∈ past → Got drivers past i t
  /-- from `IntegrationRegistry.get` or by iteration, while it was installed -/
  | found {t : Nat} :
      WhileInstalled drivers past i (fun e => e = .get t (drivers.nameOf i) i ∨ e = .iterate t) →
        Got drivers past i t
  /-- from a proxy that was handed out while it was installed -/
  | unwrapped {t : Nat} : .read t i "_integration" ∈ past →
      WhileInstalled drivers past i (Handed drivers i) → Got drivers past i t
  | given {t t' : Nat} : .pass t' t i ∈ past → Got drivers past i t' → Got drivers past i t

theorem Got.snoc (h : Got drivers past i t) (e : DealingEvent) :
    Got drivers (past ++ [e]) i t := by
  induction h with
  | made hin => exact .made (List.mem_append_left _ hin)
  | found hwhile => exact .found (hwhile.snoc e)
  | unwrapped hin hwhile => exact .unwrapped (List.mem_append_left _ hin) (hwhile.snoc e)
  | given hin _ ih => exact .given (List.mem_append_left _ hin) ih

/-- How a thread got to what it is doing. -/
def Backed (drivers : Drivers) (past : List DealingEvent) (t : Nat) : Dealing → Prop
  | .calling i operation =>
    WhileInstalled drivers past i (Asked drivers t i operation) ∨ Got drivers past i t
  | .sweeping rest => ∀ i ∈ rest, WhileInstalled drivers past i (· = .sweep t)
  | _ => True

theorem Backed.snoc {doing : Dealing} (h : Backed drivers past t doing) (e : DealingEvent) :
    Backed drivers (past ++ [e]) t doing := by
  cases doing with
  | calling => exact h.imp (·.snoc e) (·.snoc e)
  | sweeping rest => exact fun i hi => (h i hi).snoc e
  | idle | running | removing => trivial

structure Books (drivers : Drivers) (past : List DealingEvent) (s : Dealings drivers) : Prop where
  registry : s.registry.integrations.get? = installedBy drivers past
  backed : ∀ t doing, s.threads[t]? = some doing → Backed drivers past t doing
  handed : ∀ i ∈ s.handed, WhileInstalled drivers past i (Handed drivers i)
  held : ∀ t i, (t, i) ∈ s.held → Got drivers past i t

theorem getattr_eq_driver_iff {member : String} :
    drivers.getattr i member = .ok (.driver i) ↔ member = "_integration" := by
  constructor
  · intro h
    by_contra hne
    unfold Drivers.getattr at h
    rw [if_neg hne] at h
    split_ifs at h <;> simp at h
  · rintro rfl
    rfl

theorem getElem?_put {old : Dealing} (ht : s.threads[t]? = some old) (doing : Dealing) (t' : Nat) :
    (s.put t doing).threads[t']? = if t = t' then some doing else s.threads[t']? := by
  have hlt : t < s.threads.length := (List.getElem?_eq_some_iff.mp ht).1
  rw [put, List.getElem?_set]
  simp [hlt]

namespace Books

/-- What is installed now. -/
theorem whileInstalled {name : String} {P : DealingEvent → Prop} (h : Books drivers past s)
    (hi : s.registry.integrations.get? name = some i) (hP : P e) :
    WhileInstalled drivers (past ++ [e]) i P := by
  refine ⟨past, e, [], rfl, hP, ?_⟩
  rw [← h.registry, s.registry.named name i hi]
  exact hi

/-- A step that a thread makes for itself. -/
theorem turn {old doing : Dealing} (h : Books drivers past s) (hnext : Deals drivers s e s')
    (ht : s.threads[t]? = some old) (hthreads : s'.threads = (s.put t doing).threads)
    (hhanded : s'.handed = s.handed) (hheld : s'.held = s.held)
    (hbacked : Backed drivers (past ++ [e]) t doing) : Books drivers (past ++ [e]) s' := by
  refine ⟨?_, fun t' doing' ht' => ?_, fun i hi => ?_, fun t' i hi => ?_⟩
  · rw [hnext.registry, installedBy_snoc, h.registry]
  · rw [hthreads, getElem?_put ht] at ht'
    split at ht'
    · next heq =>
      cases ht'
      exact heq ▸ hbacked
    · exact (h.backed t' doing' ht').snoc e
  · rw [hhanded] at hi
    exact (h.handed i hi).snoc e
  · rw [hheld] at hi
    exact (h.held t' i hi).snoc e

/-- A step that leaves the threads where they are. -/
theorem stay (h : Books drivers past s) (hnext : Deals drivers s e s')
    (hthreads : s'.threads = s.threads)
    (hhanded : ∀ i ∈ s'.handed, WhileInstalled drivers (past ++ [e]) i (Handed drivers i))
    (hheld : ∀ t i, (t, i) ∈ s'.held → Got drivers (past ++ [e]) i t) :
    Books drivers (past ++ [e]) s' := by
  refine ⟨?_, fun t' doing' ht' => ?_, hhanded, hheld⟩
  · rw [hnext.registry, installedBy_snoc, h.registry]
  · rw [hthreads] at ht'
    exact (h.backed t' doing' ht').snoc e

/-- A step by which a thread gets some drivers. -/
theorem take {is : List ObjectId} (h : Books drivers past s)
    (hnext : Deals drivers s e (s.take t is)) (hgot : ∀ i ∈ is, Got drivers (past ++ [e]) i t) :
    Books drivers (past ++ [e]) (s.take t is) := by
  refine h.stay hnext rfl (fun i hi => (h.handed i hi).snoc e) fun t' i hi => ?_
  rcases List.mem_append.mp hi with hnew | hold
  · obtain ⟨j, hj, heq⟩ := List.mem_map.mp hnew
    cases heq
    exact hgot i hj
  · exact (h.held t' i hold).snoc e

theorem step (h : Books drivers past s) (hnext : Deals drivers s e s') :
    Books drivers (past ++ [e]) s' := by
  have handed_snoc : ∀ i ∈ s.handed, WhileInstalled drivers (past ++ [e]) i (Handed drivers i) :=
    fun i hi => (h.handed i hi).snoc e
  have held_snoc : ∀ t i, (t, i) ∈ s.held → Got drivers (past ++ [e]) i t :=
    fun t i hi => (h.held t i hi).snoc e
  have hnext' := hnext
  cases hnext with
  | install => exact h.stay hnext' rfl handed_snoc held_snoc
  | read => exact h.stay hnext' rfl handed_snoc held_snoc
  | make =>
    refine h.take hnext' fun j hj => ?_
    obtain rfl := List.mem_singleton.mp hj
    exact .made (by simp)
  | get _ hget =>
    have hi := IntegrationRegistry.get_eq_ok_iff.mp hget
    refine h.take hnext' fun j hj => ?_
    obtain rfl := List.mem_singleton.mp hj
    refine .found (h.whileInstalled hi (.inl ?_))
    rw [s.registry.named _ _ hi]
  | iterate =>
    refine h.take hnext' fun j hj => ?_
    obtain ⟨name, hname⟩ := Dict.mem_values_iff.mp hj
    exact .found (h.whileInstalled hname (.inr rfl))
  | pass _ hin =>
    refine h.take hnext' fun j hj => ?_
    obtain rfl := List.mem_singleton.mp hj
    exact .given (by simp) (held_snoc _ _ hin)
  | @handle t name j _ hget =>
    -- a handle is made for a driver that is installed under the name
    have hi := IntegrationRegistry.get_eq_ok_iff.mp hget
    refine h.stay hnext' rfl (fun k hk => ?_) held_snoc
    rcases List.mem_cons.mp hk with rfl | hk
    · refine h.whileInstalled hi ⟨t, ?_⟩
      rw [s.registry.named _ _ hi]
    · exact handed_snoc k hk
  | reveal _ hin hattr =>
    refine h.take hnext' fun j hj => ?_
    obtain rfl := List.mem_singleton.mp hj
    refine .unwrapped ?_ (handed_snoc _ hin)
    rw [getattr_eq_driver_iff.mp hattr]
    exact List.mem_append_right _ (List.mem_singleton_self _)
  | call ht hget =>
    have hi := IntegrationRegistry.get_eq_ok_iff.mp hget
    refine h.turn hnext' ht rfl rfl rfl (.inl (h.whileInstalled hi (.inl ?_)))
    rw [s.registry.named _ _ hi]
  | invoke ht hin =>
    exact h.turn hnext' ht rfl rfl rfl (.inl ((handed_snoc _ hin).mono fun _ => .inr))
  | address ht hin => exact h.turn hnext' ht rfl rfl rfl (.inr (held_snoc _ _ hin))
  | start ht | refuse ht | direct ht | finish ht | remove ht | dispose ht | swept ht =>
    exact h.turn hnext' ht rfl rfl rfl trivial
  | sweep ht =>
    -- the registry is emptied: every driver it held is to be closed
    refine h.turn hnext' ht rfl rfl rfl fun i hi => ?_
    obtain ⟨name, hname⟩ := Dict.mem_values_iff.mp hi
    exact h.whileInstalled hname rfl
  | close ht =>
    refine h.turn hnext' ht rfl rfl rfl fun i hi => ?_
    exact (h.backed _ _ ht i (List.mem_cons_of_mem _ hi)).snoc _

theorem of_runs {n : Nat} {es : List DealingEvent} (h : Runs (Deals drivers) (fresh n) es s) :
    Books drivers es s := by
  refine h.invariant_history (I := Books drivers) (fun _ _ _ _ hI hnext => hI.step hnext) ?_
  refine ⟨rfl, fun t doing ht => ?_, fun i hi => (by cases hi), fun t i hi => (by cases hi)⟩
  obtain rfl : doing = .idle := (List.mem_replicate.mp (List.mem_of_getElem? ht)).2
  trivial

end Books

theorem methodOf_eq_ok {operation method : String} (h : drivers.methodOf i operation = .ok method) :
    method = operation ∧ operation ∈ drivers.operations i := by
  unfold Drivers.methodOf at h
  split at h
  · cases h
  · next hin =>
    cases h
    exact ⟨rfl, not_not.mp hin⟩

/-- **Every method that runs on a driver is accounted for.** Where a thread begins
one, it is an operation that the driver advertises, and the thread asked the registry
for it, or a proxy was handed out, while the driver was installed; or the thread has
the driver itself. And what `IntegrationRegistry.close` closes was installed when it
looked. -/
theorem methods_accounted {n : Nat} {es : List DealingEvent}
    (h : Runs (Deals drivers) (fresh n) es s) :
    (∀ past t i method later, es = past ++ .start t i method :: later →
        (method ∈ drivers.operations i
          ∧ WhileInstalled drivers past i (Asked drivers t i method))
        ∨ Got drivers past i t)
      ∧ ∀ past t i later, es = past ++ .close t i :: later →
          WhileInstalled drivers past i (· = .sweep t) := by
  constructor
  · rintro past t i method later rfl
    obtain ⟨u, u', hrun, hnext, -⟩ := h.event
    have hbooks := Books.of_runs hrun
    cases hnext with
    | start ht hmethod =>
      obtain ⟨rfl, hin⟩ := methodOf_eq_ok hmethod
      exact (hbooks.backed _ _ ht).imp_left fun hasked => ⟨hin, hasked⟩
    | direct ht hheld => exact .inr (hbooks.held _ _ hheld)
  · rintro past t i later rfl
    obtain ⟨u, u', hrun, hnext, -⟩ := h.event
    cases hnext with
    | close ht => exact (Books.of_runs hrun).backed _ _ ht i List.mem_cons_self

/-! ## Installed, removed, closed -/

def isInstallOf (i : ObjectId) : DealingEvent → Bool
  | .install _ j => j = i
  | _ => false

def isRemovalOf (i : ObjectId) : DealingEvent → Bool
  | .remove _ _ j => j = i
  | _ => false

def isDisposalOf (i : ObjectId) : DealingEvent → Bool
  | .dispose _ j => j = i
  | _ => false

/-- The accounts of a driver. -/
structure Closed (drivers : Drivers) (past : List DealingEvent) (s : Dealings drivers)
    (i : ObjectId) : Prop where
  /-- It has been removed each time it was installed, but perhaps the last. -/
  removed : past.countP (isInstallOf i)
    = past.countP (isRemovalOf i)
      + if installedBy drivers past (drivers.nameOf i) = some i then 1 else 0
  /-- Each removal closes it once, or has still to. -/
  disposed : past.countP (isRemovalOf i)
    = past.countP (isDisposalOf i) + s.threads.count (.removing i)

theorem count_put {old : Dealing} (ht : s.threads[t]? = some old) (new doing : Dealing) :
    (s.put t new).threads.count doing + (if old = doing then 1 else 0)
      = s.threads.count doing + if new = doing then 1 else 0 := by
  obtain ⟨hlt, rfl⟩ := List.getElem?_eq_some_iff.mp ht
  rw [put, List.count_set hlt]
  simp only [beq_iff_eq]
  by_cases hold : s.threads[t] = doing
  · have hpos : 0 < s.threads.count doing :=
      List.count_pos_iff.mpr (hold ▸ List.getElem_mem hlt)
    simp only [if_pos hold]
    omega
  · simp only [if_neg hold]
    omega

/-- A step between two things that are not `uninstall`. -/
theorem count_removing_put {old new : Dealing} (ht : s.threads[t]? = some old)
    (hold : old ≠ .removing i) (hnew : new ≠ .removing i) :
    (s.put t new).threads.count (.removing i) = s.threads.count (.removing i) := by
  have hcount := count_put ht new (.removing i)
  rwa [if_neg hold, if_neg hnew] at hcount

namespace Closed

/-- A step that neither installs nor removes anything, nor closes what was removed. -/
theorem other (h : Closed drivers past s i)
    (hsame : installs drivers (installedBy drivers past) e = installedBy drivers past)
    (hinstall : isInstallOf i e = false) (hremoval : isRemovalOf i e = false)
    (hdisposal : isDisposalOf i e = false)
    (hcount : s'.threads.count (.removing i) = s.threads.count (.removing i)) :
    Closed drivers (past ++ [e]) s' i where
  removed := by
    simp only [List.countP_append, List.countP_singleton, hinstall, hremoval,
      installedBy_snoc, hsame]
    exact h.removed
  disposed := by
    simp only [List.countP_append, List.countP_singleton, hremoval, hdisposal, hcount]
    exact h.disposed

/-- A driver of another name, or the same name when it is not this one, changes
nothing for this one. -/
theorem installed_update_iff {installed : String → Option ObjectId} {name : String}
    {j : Option ObjectId} (hname : name ≠ drivers.nameOf i ∨ installed name ≠ some i ∧ j ≠ some i) :
    Function.update installed name j (drivers.nameOf i) = some i
      ↔ installed (drivers.nameOf i) = some i := by
  by_cases heq : drivers.nameOf i = name
  · obtain ⟨hold, hnew⟩ := hname.resolve_left (not_not.mpr heq.symm)
    subst heq
    simp [hold, hnew]
  · rw [Function.update_of_ne heq]

theorem install {j : ObjectId} (h : Closed drivers past s i)
    (hnone : installedBy drivers past (drivers.nameOf j) = none)
    (hthreads : s'.threads = s.threads) :
    Closed drivers (past ++ [.install t j]) s' i := by
  have hremoved := h.removed
  refine ⟨?_, by simpa [isRemovalOf, isDisposalOf, hthreads] using h.disposed⟩
  simp only [List.countP_append, List.countP_singleton, isInstallOf, isRemovalOf,
    installedBy_snoc, installs, decide_eq_true_eq, Bool.false_eq_true, if_false]
  by_cases hji : j = i
  · subst hji
    rw [hnone] at hremoved
    simpa using hremoved
  · have hiff : (Function.update (installedBy drivers past) (drivers.nameOf j) (some j)
        (drivers.nameOf i) = some i) ↔ installedBy drivers past (drivers.nameOf i) = some i :=
      installed_update_iff (.inr ⟨by rw [hnone]; simp, by simpa using hji⟩)
    simp only [hiff, if_neg hji]
    exact hremoved

theorem remove {j : ObjectId} (h : Closed drivers past s i)
    (hj : installedBy drivers past (drivers.nameOf j) = some j) (ht : s.threads[t]? = some .idle)
    (hthreads : s'.threads = (s.put t (.removing j)).threads) :
    Closed drivers (past ++ [.remove t (drivers.nameOf j) j]) s' i := by
  have hcount := count_put ht (.removing j) (.removing i)
  have hremoved := h.removed
  have hdisposed := h.disposed
  rw [← hthreads] at hcount
  constructor
  · simp only [List.countP_append, List.countP_singleton, isInstallOf, isRemovalOf,
      installedBy_snoc, installs, decide_eq_true_eq, Bool.false_eq_true, if_false]
    by_cases hji : j = i
    · subst hji
      rw [hj] at hremoved
      simpa using hremoved
    · have hiff : (Function.update (installedBy drivers past) (drivers.nameOf j) none
          (drivers.nameOf i) = some i) ↔ installedBy drivers past (drivers.nameOf i) = some i :=
        installed_update_iff (.inr ⟨by rw [hj]; simpa using hji, by simp⟩)
      simp only [hiff, if_neg hji]
      exact hremoved
  · simp only [List.countP_append, List.countP_singleton, isRemovalOf, isDisposalOf,
      decide_eq_true_eq, Bool.false_eq_true, if_false]
    simp only [reduceCtorEq, if_false, Dealing.removing.injEq] at hcount
    omega

theorem dispose {j : ObjectId} (h : Closed drivers past s i)
    (ht : s.threads[t]? = some (.removing j)) :
    Closed drivers (past ++ [.dispose t j]) (s.put t .idle) i := by
  have hcount := count_put ht .idle (.removing i)
  have hdisposed := h.disposed
  constructor
  · simpa [isInstallOf, isRemovalOf, installedBy_snoc, installs] using h.removed
  · simp only [List.countP_append, List.countP_singleton, isRemovalOf, isDisposalOf,
      decide_eq_true_eq, Bool.false_eq_true, if_false]
    simp only [reduceCtorEq, if_false, Dealing.removing.injEq] at hcount
    omega

theorem step (hbooks : Books drivers past s) (h : Closed drivers past s i)
    (hnext : Deals drivers s e s') : Closed drivers (past ++ [e]) s' i := by
  cases hnext with
  | install ht hheld hok =>
    refine h.install ?_ rfl
    rw [← hbooks.registry]
    exact (IntegrationRegistry.install_eq_ok hok).1
  | @remove t name j ht hj =>
    obtain rfl := s.registry.named name j hj
    refine h.remove ?_ ht rfl
    rw [← hbooks.registry]
    exact hj
  | dispose ht => exact h.dispose ht
  | make | get | iterate | pass | handle | reveal | read => exact h.other rfl rfl rfl rfl rfl
  | call ht | invoke ht | address ht | start ht | refuse ht | direct ht | finish ht | sweep ht
  | close ht | swept ht => exact h.other rfl rfl rfl rfl (count_removing_put ht (by simp) (by simp))

end Closed

/-- **Every driver is closed once for each time it is removed.** After any steps of
any threads the registry holds what was installed last under each name and has not
been removed; each driver has been removed as often as it was installed, but
perhaps the last time; and closed once for each removal, except for those that a
thread in `uninstall` has still to close. -/
theorem closings_accounted {n : Nat} {es : List DealingEvent}
    (h : Runs (Deals drivers) (fresh n) es s) :
    s.registry.integrations.get? = installedBy drivers es ∧ ∀ i, Closed drivers es s i := by
  refine ⟨(Books.of_runs h).registry, fun i => ?_⟩
  refine (h.invariant_history (I := fun es s => Books drivers es s ∧ Closed drivers es s i)
    (fun _ _ _ _ hI hnext => ⟨hI.1.step hnext, hI.2.step hI.1 hnext⟩) ⟨.of_runs .nil, ?_⟩).2
  constructor
  · rfl
  · show 0 = 0 + (List.replicate n Dealing.idle).count (.removing i)
    simp [List.count_replicate]

end Dealings

/-! ## A clock taken away -/

/-- Drivers that are all clocks. -/
def clocks : Drivers where
  nameOf _ := "clock"
  nameOf_ne _ := by decide
  operations _ := ["now", "sleep"]

/-- One thread has looked the clock up when another uninstalls it: `now()` begins
on a clock that has been closed. -/
def takenAway : List DealingEvent :=
  [.make 0 7, .install 0 7, .call 1 "clock" "now" 7, .remove 0 "clock" 7, .dispose 0 7,
    .start 1 7 "now"]

theorem takenAway_runs :
    ∃ s, Runs (Dealings.Deals clocks) (Dealings.fresh 2) takenAway s := by
  obtain ⟨registry, hok⟩ : ∃ registry, (∅ : IntegrationRegistry clocks).install 7 = .ok registry :=
    ⟨_, rfl⟩
  have hclock : registry.integrations.get? "clock" = some 7 := by
    rw [(IntegrationRegistry.install_eq_ok hok).2]
    rfl
  have hget : registry.get "clock" = .ok 7 := IntegrationRegistry.get_eq_ok_iff.mpr hclock
  have hmethod : clocks.methodOf 7 "now" = .ok "now" := rfl
  exact ⟨_, (((((Runs.nil.snoc (.make rfl)).snoc (.install rfl List.mem_cons_self hok)).snoc
    (.call rfl hget)).snoc (.remove rfl hclock)).snoc (.dispose rfl)).snoc (.start rfl hmethod)⟩

theorem methods_accounted_clock :
    ("now" ∈ clocks.operations 7 ∧ Dealings.WhileInstalled clocks (takenAway.take 5) 7
      (Dealings.Asked clocks 1 7 "now"))
    ∨ Dealings.Got clocks (takenAway.take 5) 7 1 :=
  takenAway_runs.elim fun _ h => (Dealings.methods_accounted h).1 _ 1 7 "now" [] rfl

theorem closings_accounted_clock : ∃ s, Dealings.Closed clocks takenAway s 7 :=
  takenAway_runs.imp fun _ h => (Dealings.closings_accounted h).2 7

end TitoOS
