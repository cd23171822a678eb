import TitoOS.Lib.Transition

/-!
# Calls that take turns under a lock

A call on an object whose operations run under one lock arrives, takes the lock,
makes its moves on the shared state one at a time, releases the lock and answers.
Other calls arrive, wait and answer meanwhile: `Monitor.Next` interleaves the
steps of all of them. However they interleave, every call answers as it does when
those that took the lock run one after another, in the order in which they took
it, and that order agrees with real time (`Monitor.linearizes`); and all calls can
be brought to their answers (`Monitor.answers_all`).
-/

/-- What a call does while it holds the lock. A move changes the shared state and
goes on by what it found there. -/
inductive Critical (S R : Type) where
  | leave (r : R)
  | move (next : S → S) (rest : S → Critical S R)

namespace Critical

variable {S R Q : Type}

/-- The moves one after another, and the answer. -/
def run : Critical S R → S → S × R
  | leave r, s => (s, r)
  | move next rest, s => (rest s).run (next s)

/-- The same of a call that answers at once, or goes through `c`. -/
def alone : Except R (Critical S R) → S → S × R
  | .error r, s => (s, r)
  | .ok c, s => c.run s

/-- A move that only looks. -/
def look (rest : S → Critical S R) : Critical S R := .move id rest

/-- The moves of `c`, and then those of what its answer calls for. -/
def andThen : Critical S R → (R → Critical S Q) → Critical S Q
  | leave r, f => f r
  | move next rest, f => .move next fun s => (rest s).andThen f

@[simp] theorem run_leave (r : R) (s : S) : (leave r : Critical S R).run s = (s, r) := rfl

@[simp] theorem run_move (next : S → S) (rest : S → Critical S R) (s : S) :
    (move next rest).run s = (rest s).run (next s) := rfl

@[simp] theorem run_look (rest : S → Critical S R) (s : S) : (look rest).run s = (rest s).run s :=
  rfl

@[simp] theorem run_andThen (c : Critical S R) (f : R → Critical S Q) (s : S) :
    (c.andThen f).run s = (f (c.run s).2).run (c.run s).1 := by
  induction c generalizing s with
  | leave r => rfl
  | move next rest ih => exact ih s (next s)

end Critical

/-- Where a call is. -/
inductive Stage (S O R : Type) where
  | waiting (o : O)
  | inside (o : O) (c : Critical S R)
  | leaving (o : O) (r : R)
  | answered (o : O) (r : R)

/-- What it is a call of. -/
def Stage.op {S O R : Type} : Stage S O R → O
  | waiting o | inside o _ | leaving o _ | answered o _ => o

def Stage.isAnswered {S O R : Type} : Stage S O R → Bool
  | answered .. => true
  | _ => false

/-- The object: the shared state, the call that holds the lock, and all calls, in
the order of their arrival. -/
structure Monitor (S O R : Type) where
  shared : S
  holder : Option Nat := none
  calls : List (Stage S O R) := []

/-- What happens to a call. One that does not need the lock passes it by. -/
inductive MonitorEvent (O R : Type) where
  | arrive (c : Nat) (o : O)
  | pass (c : Nat)
  | enter (c : Nat) (o : O)
  | move (c : Nat)
  | leave (c : Nat)
  | answer (c : Nat) (r : R)

namespace Monitor

variable {S O R : Type}

/-- The call `c` is now at `stage`. -/
def put (m : Monitor S O R) (c : Nat) (stage : Stage S O R) : Monitor S O R :=
  { m with calls := m.calls.set c stage }

/-- A step of one call. `code` says what a call does: it answers without the
lock, or it goes through a critical section. -/
inductive Next (code : O → Except R (Critical S R)) :
    Monitor S O R → MonitorEvent O R → Monitor S O R → Prop
  | arrive (m : Monitor S O R) (o : O) :
      Next code m (.arrive m.calls.length o) { m with calls := m.calls ++ [.waiting o] }
  | pass {m : Monitor S O R} {c : Nat} {o : O} {r : R} :
      m.calls[c]? = some (.waiting o) → code o = .error r →
        Next code m (.pass c) (m.put c (.leaving o r))
  | enter {m : Monitor S O R} {c : Nat} {o : O} {sec : Critical S R} :
      m.calls[c]? = some (.waiting o) → code o = .ok sec → m.holder = none →
        Next code m (.enter c o) { m.put c (.inside o sec) with holder := some c }
  | move {m : Monitor S O R} {c : Nat} {o : O} {next : S → S} {rest : S → Critical S R} :
      m.calls[c]? = some (.inside o (.move next rest)) →
        Next code m (.move c) { m.put c (.inside o (rest m.shared)) with shared := next m.shared }
  | leave {m : Monitor S O R} {c : Nat} {o : O} {r : R} :
      m.calls[c]? = some (.inside o (.leave r)) →
        Next code m (.leave c) { m.put c (.leaving o r) with holder := none }
  | answer {m : Monitor S O R} {c : Nat} {o : O} {r : R} :
      m.calls[c]? = some (.leaving o r) → Next code m (.answer c r) (m.put c (.answered o r))

/-! ## One after another -/

/-- A call that runs alone. -/
def apply (code : O → Except R (Critical S R)) (o : O) (s : S) : S × R :=
  Critical.alone (code o) s

/-- The state after calls that ran one after another. -/
def serial (code : O → Except R (Critical S R)) (calls : List (Nat × O)) (s : S) : S :=
  calls.foldl (fun s p => (apply code p.2 s).1) s

/-- The answer of the call `c` is the one it gives in its place among `calls`. -/
def InPlace (code : O → Except R (Critical S R)) (s₀ : S) (calls : List (Nat × O)) (c : Nat)
    (o : O) (r : R) : Prop :=
  ∃ before after, calls = before ++ (c, o) :: after
    ∧ (apply code o (serial code before s₀)).2 = r

def entered : MonitorEvent O R → Option (Nat × O)
  | .enter c o => some (c, o)
  | _ => none

/-- The calls that took the lock, in the order in which they took it. -/
def order (past : List (MonitorEvent O R)) : List (Nat × O) := past.filterMap entered

variable {code : O → Except R (Critical S R)} {s₀ : S} {m m' : Monitor S O R}
  {e : MonitorEvent O R} {past : List (MonitorEvent O R)} {c d : Nat} {o : O} {r : R}

theorem order_append (es es' : List (MonitorEvent O R)) :
    order (es ++ es') = order es ++ order es' := List.filterMap_append ..

theorem order_snoc_of_not_entered (h : entered e = none) : order (past ++ [e]) = order past := by
  rw [order_append]
  simp [order, h]

theorem order_snoc_enter : order (past ++ [.enter c o]) = order past ++ [(c, o)] := by
  rw [order_append]
  rfl

theorem mem_order_iff : (c, o) ∈ order past ↔ .enter c o ∈ past := by
  rw [order, List.mem_filterMap]
  constructor
  · rintro ⟨e, he, hentered⟩
    cases e with
    | enter c' o' =>
      cases hentered
      exact he
    | _ => cases hentered
  · intro h
    exact ⟨_, h, rfl⟩

theorem serial_snoc (calls : List (Nat × O)) (s : S) :
    serial code (calls ++ [(c, o)]) s = (apply code o (serial code calls s)).1 := by
  simp [serial]

theorem InPlace.append {calls : List (Nat × O)} (h : InPlace code s₀ calls c o r)
    (later : List (Nat × O)) : InPlace code s₀ (calls ++ later) c o r := by
  obtain ⟨before, after, rfl, hr⟩ := h
  exact ⟨before, after ++ later, by simp, hr⟩

/-! ## Where the calls are -/

theorem put_calls (m : Monitor S O R) (c : Nat) (stage : Stage S O R) :
    (m.put c stage).calls = m.calls.set c stage := rfl

theorem getElem?_put {old : Stage S O R} (hc : m.calls[c]? = some old) (stage : Stage S O R)
    (d : Nat) : (m.put c stage).calls[d]? = if c = d then some stage else m.calls[d]? := by
  have hlt : c < m.calls.length := (List.getElem?_eq_some_iff.mp hc).1
  rw [put, List.getElem?_set]
  simp [hlt]

@[simp] theorem length_put (m : Monitor S O R) (c : Nat) (stage : Stage S O R) :
    (m.put c stage).calls.length = m.calls.length := List.length_set ..

theorem Next.length_le (h : Next code m e m') : m.calls.length ≤ m'.calls.length := by
  cases h with
  | arrive => simp
  | pass | enter | move | leave | answer => simp

/-- An answered call stays so. -/
theorem Next.answered (h : Next code m e m') (hd : m.calls[d]? = some (.answered o r)) :
    m'.calls[d]? = some (.answered o r) := by
  have other {c : Nat} {old : Stage S O R} (stage : Stage S O R) (hc : m.calls[c]? = some old)
      (hne : old ≠ .answered o r) : (m.put c stage).calls[d]? = some (.answered o r) := by
    rw [getElem?_put hc, if_neg, hd]
    rintro rfl
    exact hne (Option.some.inj (hc.symm.trans hd))
  cases h with
  | arrive => rw [List.getElem?_append_left (List.getElem?_eq_some_iff.mp hd).1, hd]
  | pass hc | enter hc | move hc | leave hc | answer hc => exact other _ hc (by simp)

/-- Where the call `d` is, the order and the lock agree with it. -/
def Fits (code : O → Except R (Critical S R)) (s₀ : S) (past : List (MonitorEvent O R))
    (m : Monitor S O R) (d : Nat) : Stage S O R → Prop
  | .waiting _ => d ∉ (order past).map Prod.fst
  | .inside o sec => m.holder = some d ∧ ∃ before, order past = before ++ [(d, o)]
      ∧ sec.run m.shared = apply code o (serial code before s₀)
  | .leaving o r | .answered o r => code o = .error r ∨ InPlace code s₀ (order past) d o r

/-- The books of the object after the steps `past`. -/
structure Account (code : O → Except R (Critical S R)) (s₀ : S)
    (past : List (MonitorEvent O R)) (m : Monitor S O R) : Prop where
  fits : ∀ d stage, m.calls[d]? = some stage → Fits code s₀ past m d stage
  known : ∀ p ∈ order past, p.1 < m.calls.length
  held : ∀ c, m.holder = some c → ∃ o sec, m.calls[c]? = some (.inside o sec)
  free : m.holder = none → m.shared = serial code (order past) s₀
  once : ((order past).map Prod.fst).Nodup

theorem Account.start (code : O → Except R (Critical S R)) (s₀ : S) :
    Account code s₀ [] { shared := s₀ } where
  fits _ _ h := by simp at h
  known _ h := by simp [order] at h
  held _ h := by cases h
  free _ := rfl
  once := List.nodup_nil

namespace Account

/-- Only the holder is inside. -/
theorem eq_holder {sec : Critical S R} (h : Account code s₀ past m)
    (hd : m.calls[d]? = some (.inside o sec)) : m.holder = some d := (h.fits d _ hd).1

/-- What a step of the holder that takes no call inside leaves of the others. -/
theorem beside {stage : Stage S O R} {past' : List (MonitorEvent O R)}
    (h : Account code s₀ past m) (hholder : m.holder = some c) (hne : c ≠ d)
    (hd : m.calls[d]? = some stage) (horder : order past' = order past) (m' : Monitor S O R) :
    Fits code s₀ past' m' d stage := by
  have hfits := h.fits d stage hd
  cases stage with
  | inside =>
    rw [h.eq_holder hd] at hholder
    exact absurd (Option.some.inj hholder).symm hne
  | waiting | leaving | answered => simpa only [Fits, horder] using hfits

/-- A step that leaves the state and the lock alone, and takes no call inside. -/
theorem quiet {old stage : Stage S O R} (h : Account code s₀ past m)
    (hentered : entered e = none) (hc : m.calls[c]? = some old)
    (hold : ∀ o sec, old ≠ .inside o sec) (hfits : Fits code s₀ past m c stage) :
    Account code s₀ (past ++ [e]) (m.put c stage) := by
  have horder : order (past ++ [e]) = order past := order_snoc_of_not_entered hentered
  refine ⟨fun d stage' hd => ?_, ?_, fun d hd => ?_, ?_, ?_⟩
  · rw [getElem?_put hc] at hd
    have hfits' : Fits code s₀ past m d stage' := by
      split at hd
      · next heq =>
        cases hd
        exact heq ▸ hfits
      · exact h.fits d stage' hd
    cases stage' <;> simpa only [Fits, horder, put] using hfits'
  · rw [horder, length_put]
    exact h.known
  · obtain ⟨o, sec, hin⟩ := h.held d hd
    have hne : c ≠ d := by
      rintro rfl
      exact hold o sec (Option.some.inj (hc.symm.trans hin))
    exact ⟨o, sec, by rw [getElem?_put hc, if_neg hne, hin]⟩
  · rw [horder]
    exact h.free
  · rw [horder]
    exact h.once

theorem arrive (h : Account code s₀ past m) (o : O) :
    Account code s₀ (past ++ [.arrive m.calls.length o])
      { m with calls := m.calls ++ [.waiting o] } := by
  have horder : order (past ++ [.arrive m.calls.length o]) = order past :=
    order_snoc_of_not_entered rfl
  refine ⟨fun d stage hd => ?_, fun p hp => ?_, fun d hd => ?_, ?_, ?_⟩
  · rcases Nat.lt_trichotomy d m.calls.length with hlt | rfl | hgt
    · have hd : m.calls[d]? = some stage := by rwa [List.getElem?_append_left hlt] at hd
      have hfits := h.fits d stage hd
      cases stage <;> simpa only [Fits, horder] using hfits
    · obtain rfl : .waiting o = stage := by simpa using hd
      rw [Fits, horder]
      intro hmem
      obtain ⟨p, hp, heq⟩ := List.mem_map.mp hmem
      exact absurd (h.known p hp) (by omega)
    · rw [List.getElem?_eq_none (by simp; omega)] at hd
      cases hd
  · rw [horder] at hp
    have := h.known p hp
    simp only [List.length_append, List.length_singleton]
    omega
  · obtain ⟨o', sec, hin⟩ := h.held d hd
    exact ⟨o', sec, by
      rw [List.getElem?_append_left (List.getElem?_eq_some_iff.mp hin).1, hin]⟩
  · rw [horder]
    exact h.free
  · rw [horder]
    exact h.once

theorem enter {sec : Critical S R} (h : Account code s₀ past m)
    (hc : m.calls[c]? = some (.waiting o)) (hcode : code o = .ok sec) (hfree : m.holder = none) :
    Account code s₀ (past ++ [.enter c o])
      { m.put c (.inside o sec) with holder := some c } := by
  have hnew : c ∉ (order past).map Prod.fst := h.fits c _ hc
  have hlt : c < m.calls.length := (List.getElem?_eq_some_iff.mp hc).1
  refine ⟨fun d stage hd => ?_, fun p hp => ?_, fun d hd => ?_, fun hnone => ?_, ?_⟩
  · rw [show ({ m.put c (.inside o sec) with holder := some c } : Monitor S O R).calls[d]?
      = (m.put c (.inside o sec)).calls[d]? from rfl, getElem?_put hc] at hd
    split at hd
    · next heq =>
      subst heq
      cases hd
      refine ⟨rfl, order past, order_snoc_enter, ?_⟩
      rw [show ({ m.put c (.inside o sec) with holder := some c } : Monitor S O R).shared
        = m.shared from rfl, h.free hfree, apply, hcode, Critical.alone]
    · next hne =>
      have hfits := h.fits d stage hd
      cases stage with
      | waiting =>
        rw [Fits, order_snoc_enter, List.map_append, List.mem_append]
        -- another call that waits is not the one that entered
        rintro (hmem | hmem)
        · exact hfits hmem
        · have hdc : d = c := by simpa using hmem
          exact hne hdc.symm
      | inside =>
        -- nobody else is inside, since the lock was free
        rw [h.eq_holder hd] at hfree
        cases hfree
      | leaving | answered =>
        rw [Fits, order_snoc_enter]
        exact hfits.imp_right fun hplace => hplace.append _
  · rw [order_snoc_enter] at hp
    show p.1 < (m.put c (.inside o sec)).calls.length
    rw [length_put]
    rcases List.mem_append.mp hp with hp | hp
    · exact h.known p hp
    · rw [List.mem_singleton.mp hp]
      exact hlt
  · obtain rfl : c = d := Option.some.inj hd
    exact ⟨o, sec, by
      show (m.put c (.inside o sec)).calls[c]? = _
      rw [getElem?_put hc, if_pos rfl]⟩
  · cases hnone
  · rw [order_snoc_enter, List.map_append, List.nodup_append]
    refine ⟨h.once, by simp, fun d hd d' hd' => ?_⟩
    obtain rfl : d' = c := by simpa using hd'
    rintro rfl
    exact hnew hd

theorem move {next : S → S} {rest : S → Critical S R} (h : Account code s₀ past m)
    (hc : m.calls[c]? = some (.inside o (.move next rest))) :
    Account code s₀ (past ++ [.move c])
      { m.put c (.inside o (rest m.shared)) with shared := next m.shared } := by
  have horder : order (past ++ [.move c]) = order past := order_snoc_of_not_entered rfl
  obtain ⟨hholder, before, hbefore, hrun⟩ := h.fits c _ hc
  refine ⟨fun d stage hd => ?_, ?_, fun d hd => ?_, fun hnone => ?_, ?_⟩
  · replace hd : (m.put c (.inside o (rest m.shared))).calls[d]? = some stage := hd
    rw [getElem?_put hc] at hd
    split at hd
    · next heq =>
      subst heq
      cases hd
      exact ⟨hholder, before, by rw [horder, hbefore], hrun⟩
    · next hne => exact h.beside hholder hne hd horder _
  · rw [horder]
    show ∀ p ∈ order past, p.1 < (m.put c _).calls.length
    rw [length_put]
    exact h.known
  · obtain rfl : c = d := Option.some.inj (hholder.symm.trans hd)
    exact ⟨o, rest m.shared, by
      show (m.put c _).calls[c]? = _
      rw [getElem?_put hc, if_pos rfl]⟩
  · rw [show m.holder = none from hnone] at hholder
    cases hholder
  · rw [horder]
    exact h.once

theorem leave (h : Account code s₀ past m) (hc : m.calls[c]? = some (.inside o (.leave r))) :
    Account code s₀ (past ++ [.leave c]) { m.put c (.leaving o r) with holder := none } := by
  have horder : order (past ++ [.leave c]) = order past := order_snoc_of_not_entered rfl
  obtain ⟨hholder, before, hbefore, hrun⟩ := h.fits c _ hc
  have happly : apply code o (serial code before s₀) = (m.shared, r) := hrun.symm
  refine ⟨fun d stage hd => ?_, ?_, fun d hd => ?_, fun _ => ?_, ?_⟩
  · replace hd : (m.put c (.leaving o r)).calls[d]? = some stage := hd
    rw [getElem?_put hc] at hd
    split at hd
    · next heq =>
      subst heq
      cases hd
      exact .inr ⟨before, [], by rw [horder, hbefore], by rw [happly]⟩
    · next hne => exact h.beside hholder hne hd horder _
  · rw [horder]
    show ∀ p ∈ order past, p.1 < (m.put c _).calls.length
    rw [length_put]
    exact h.known
  · cases hd
  · show m.shared = _
    rw [horder, hbefore, serial_snoc, happly]
  · rw [horder]
    exact h.once

theorem step (h : Account code s₀ past m) (hnext : Next code m e m') :
    Account code s₀ (past ++ [e]) m' := by
  cases hnext with
  | arrive o => exact h.arrive o
  | pass hc hcode => exact h.quiet rfl hc (fun _ _ => by simp) (.inl hcode)
  | enter hc hcode hfree => exact h.enter hc hcode hfree
  | move hc => exact h.move hc
  | leave hc => exact h.leave hc
  | answer hc => exact h.quiet rfl hc (fun _ _ => by simp) (by exact h.fits _ (.leaving _ _) hc)

theorem of_runs {es : List (MonitorEvent O R)}
    (h : Runs (Next code) { shared := s₀ } es m) : Account code s₀ es m :=
  h.invariant_history (I := Account code s₀) (fun _ _ _ _ hI hnext => hI.step hnext)
    (.start code s₀)

end Account

/-! ## What the callers see -/

theorem length_le_of_runs {es : List (MonitorEvent O R)} (h : Runs (Next code) m es m') :
    m.calls.length ≤ m'.calls.length :=
  h.invariant (I := fun t => m.calls.length ≤ t.calls.length)
    (fun _ _ _ hI hnext => Nat.le_trans hI hnext.length_le) (Nat.le_refl _)

theorem answered_of_runs {es : List (MonitorEvent O R)} (h : Runs (Next code) m es m')
    (hd : m.calls[d]? = some (.answered o r)) : m'.calls[d]? = some (.answered o r) :=
  h.invariant (I := fun t => t.calls[d]? = some (.answered o r))
    (fun _ _ _ hI hnext => hnext.answered hI) hd

/-- A call that answered in a run is answered after it. -/
theorem answered_of_mem {es : List (MonitorEvent O R)} (h : Runs (Next code) m es m')
    (hmem : .answer c r ∈ es) : ∃ o, m'.calls[c]? = some (.answered o r) := by
  obtain ⟨es₁, es₂, rfl⟩ := List.append_of_mem hmem
  obtain ⟨t, t', -, hnext, hrest⟩ := h.event
  cases hnext with
  | answer hc => exact ⟨_, answered_of_runs hrest (by rw [getElem?_put hc, if_pos rfl])⟩

/-- A call that has answered does not take the lock again. -/
theorem not_entered_of_answered {es : List (MonitorEvent O R)} {o' : O}
    (h : Runs (Next code) m es m') (hc : m.calls[c]? = some (.answered o r)) :
    .enter c o' ∉ es := by
  intro hmem
  obtain ⟨es₁, es₂, rfl⟩ := List.append_of_mem hmem
  obtain ⟨t, t', hrun, hnext, -⟩ := h.event
  have hthere := answered_of_runs hrun hc
  cases hnext with
  | enter hwaiting =>
    rw [hthere] at hwaiting
    cases hwaiting

/-- A call that arrives in a run was not there before it. -/
theorem length_le_of_arrived {es : List (MonitorEvent O R)} (h : Runs (Next code) m es m')
    (hmem : .arrive c o ∈ es) : m.calls.length ≤ c := by
  obtain ⟨es₁, es₂, rfl⟩ := List.append_of_mem hmem
  obtain ⟨t, t', hrun, hnext, -⟩ := h.event
  cases hnext with
  | arrive => exact length_le_of_runs hrun

/-- Every call has arrived. -/
theorem arrived_of_runs {es : List (MonitorEvent O R)}
    (h : Runs (Next code) { shared := s₀ } es m) {stage : Stage S O R}
    (hd : m.calls[d]? = some stage) : .arrive d stage.op ∈ es := by
  refine h.invariant_history (I := fun es (m : Monitor S O R) => ∀ d stage,
    m.calls[d]? = some stage → .arrive d stage.op ∈ es) (fun es m e m' hI hnext => ?_)
    (fun d stage hd => by simp at hd) d stage hd
  have put_cases {c : Nat} {old new : Stage S O R} (hc : m.calls[c]? = some old)
      (hop : new.op = old.op) : ∀ d stage, (m.put c new).calls[d]? = some stage →
        .arrive d stage.op ∈ es ++ [e] := by
    intro d stage hd
    rw [getElem?_put hc] at hd
    split at hd
    · next heq =>
      cases hd
      subst heq
      rw [hop]
      exact List.mem_append_left _ (hI c old hc)
    · exact List.mem_append_left _ (hI d stage hd)
  cases hnext with
  | arrive o =>
    intro d stage hd
    rcases Nat.lt_trichotomy d m.calls.length with hlt | rfl | hgt
    · rw [List.getElem?_append_left hlt] at hd
      exact List.mem_append_left _ (hI d stage hd)
    · obtain rfl : .waiting o = stage := by simpa using hd
      simp [Stage.op]
    · rw [List.getElem?_eq_none (by simp; omega)] at hd
      cases hd
  | pass hc | enter hc | move hc | leave hc | answer hc => exact put_cases hc rfl

/-- The history `es` of the object, which is now `m`, is one of calls that ran one
after another, in the order in which they took the lock. -/
structure Linearizes (code : O → Except R (Critical S R)) (s₀ : S)
    (es : List (MonitorEvent O R)) (m : Monitor S O R) : Prop where
  /-- No call is in the order twice. -/
  once : ((order es).map Prod.fst).Nodup
  /-- While nobody holds the lock, the state is the one they leave behind. -/
  shared : m.holder = none → m.shared = serial code (order es) s₀
  /-- Every answer is the one given in its place, or needs no place. -/
  answers : ∀ c r, .answer c r ∈ es →
    ∃ o, .arrive c o ∈ es ∧ (code o = .error r ∨ InPlace code s₀ (order es) c o r)
  /-- A call that answered before another one arrived comes before it. -/
  realTime : ∀ es₁ es₂ c r d o oc od, es = es₁ ++ es₂ → .answer c r ∈ es₁ →
    .arrive d o ∈ es₂ → (c, oc) ∈ order es → (d, od) ∈ order es →
      [(c, oc), (d, od)].Sublist (order es)

/-- **Calls under one lock are linearizable.** -/
theorem linearizes {es : List (MonitorEvent O R)}
    (h : Runs (Next code) { shared := s₀ } es m) : Linearizes code s₀ es m := by
  have haccount := Account.of_runs h
  refine ⟨haccount.once, haccount.free, fun c r hmem => ?_,
    fun es₁ es₂ c r d o oc od hes hanswer harrive hc hd => ?_⟩
  · obtain ⟨o, hthere⟩ := answered_of_mem h hmem
    exact ⟨o, arrived_of_runs h hthere, haccount.fits c _ hthere⟩
  · subst hes
    obtain ⟨m₁, hrun₁, hrun₂⟩ := h.split
    obtain ⟨o', hthere⟩ := answered_of_mem hrun₁ hanswer
    have hlate : m₁.calls.length ≤ d := length_le_of_arrived hrun₂ harrive
    rw [order_append] at hc hd ⊢
    have hearly : (c, oc) ∈ order es₁ := (List.mem_append.mp hc).resolve_right fun hmem =>
      not_entered_of_answered hrun₂ hthere (mem_order_iff.mp hmem)
    have hlater : (d, od) ∈ order es₂ := (List.mem_append.mp hd).resolve_left fun hmem => by
      have := (Account.of_runs hrun₁).known _ hmem
      omega
    exact (List.singleton_sublist.mpr hearly).append (List.singleton_sublist.mpr hlater)

/-! ## Every call can answer -/

/-- A step that is not the arrival of another call. -/
def Inner : MonitorEvent O R → Prop
  | .arrive .. => False
  | _ => True

/-- The holder of the lock can be brought to its release. -/
theorem leads_to_leave {sec : Critical S R} (hc : m.calls[c]? = some (.inside o sec)) :
    Runs.Leads (Next code) Inner (fun t => t.holder = none
      ∧ ∃ r, t.calls = m.calls.set c (.leaving o r)) m := by
  induction sec generalizing m with
  | leave r =>
    refine .step (.leave hc) trivial (.here ⟨rfl, r, rfl⟩)
  | move next rest ih =>
    refine .step (.move hc) trivial ((ih m.shared (m := { m.put c (.inside o (rest m.shared)) with
      shared := next m.shared }) ?_).mono fun t ht => ?_)
    · show (m.put c _).calls[c]? = _
      rw [getElem?_put hc, if_pos rfl]
    · obtain ⟨hnone, r, hcalls⟩ := ht
      exact ⟨hnone, r, by rw [hcalls]; exact List.set_set ..⟩

/-- How many calls have not answered. -/
def openCalls (m : Monitor S O R) : Nat := m.calls.countP fun stage => !stage.isAnswered

theorem openCalls_of_answered {old new : Stage S O R} (hc : m.calls[c]? = some old)
    (hold : old.isAnswered = false) (hnew : new.isAnswered = true)
    (hcalls : m'.calls = m.calls.set c new) : m'.openCalls < m.openCalls := by
  obtain ⟨hlt, rfl⟩ := List.getElem?_eq_some_iff.mp hc
  have hpos : 0 < m.calls.countP fun stage => !stage.isAnswered :=
    List.countP_pos_iff.mpr ⟨_, List.getElem_mem hlt, by simp [hold]⟩
  rw [openCalls, openCalls, hcalls, List.countP_set hlt]
  simp only [hold, hnew, Bool.not_false, Bool.not_true, if_true, Bool.false_eq_true, if_false]
  omega

theorem openCalls_of_turned {old new : Stage S O R} (hc : m.calls[c]? = some old)
    (hsame : new.isAnswered = old.isAnswered) (hcalls : m'.calls = m.calls.set c new) :
    m'.openCalls = m.openCalls := by
  obtain ⟨hlt, rfl⟩ := List.getElem?_eq_some_iff.mp hc
  rw [openCalls, openCalls, hcalls, List.countP_set hlt, hsame]
  cases hold : m.calls[c].isAnswered with
  | true => simp
  | false =>
    have hpos : 0 < m.calls.countP fun stage => !stage.isAnswered :=
      List.countP_pos_iff.mpr ⟨_, List.getElem_mem hlt, by simp [hold]⟩
    simp only [Bool.not_false, if_true]
    omega

theorem leads_to_answer_of_leaving (hc : m.calls[c]? = some (.leaving o r)) :
    Runs.Leads (Next code) Inner (fun t => t.openCalls < m.openCalls) m :=
  .step (.answer hc) trivial (.here (openCalls_of_answered hc rfl rfl rfl))

theorem leads_to_answer_of_inside {sec : Critical S R}
    (hc : m.calls[c]? = some (.inside o sec)) :
    Runs.Leads (Next code) Inner (fun t => t.openCalls < m.openCalls) m := by
  refine (leads_to_leave hc).trans fun t ht => ?_
  obtain ⟨-, r, hcalls⟩ := ht
  have hlt : c < m.calls.length := (List.getElem?_eq_some_iff.mp hc).1
  have hleaving : t.calls[c]? = some (.leaving o r) := by
    rw [hcalls, List.getElem?_set_self hlt]
  rw [← openCalls_of_turned hc (by rfl) hcalls]
  exact leads_to_answer_of_leaving hleaving

/-- While a call has not answered, one can be brought to its answer. -/
theorem leads_to_answer (h : Account code s₀ past m) {old : Stage S O R}
    (hc : m.calls[c]? = some old) (hopen : old.isAnswered = false) :
    Runs.Leads (Next code) Inner (fun t => t.openCalls < m.openCalls) m := by
  cases hholder : m.holder with
  | some d =>
    obtain ⟨o, sec, hin⟩ := h.held d hholder
    exact leads_to_answer_of_inside hin
  | none =>
    cases old with
    | answered => cases hopen
    | inside =>
      rw [h.eq_holder hc] at hholder
      cases hholder
    | leaving o r => exact leads_to_answer_of_leaving hc
    | waiting o =>
      cases hcode : code o with
      | error r =>
        refine .step (.pass hc hcode) trivial ?_
        have hleaving : (m.put c (.leaving o r)).calls[c]? = some (.leaving o r) := by
          rw [getElem?_put hc, if_pos rfl]
        rw [← openCalls_of_turned hc (by rfl) (put_calls m c (.leaving o r))]
        exact leads_to_answer_of_leaving hleaving
      | ok sec =>
        refine .step (.enter hc hcode hholder) trivial ?_
        have hin : ({ m.put c (.inside o sec) with holder := some c } : Monitor S O R).calls[c]?
            = some (.inside o sec) := by
          show (m.put c _).calls[c]? = _
          rw [getElem?_put hc, if_pos rfl]
        have hopen' : ({ m.put c (.inside o sec) with holder := some c } :
            Monitor S O R).openCalls = m.openCalls := openCalls_of_turned hc (by rfl) rfl
        rw [← hopen']
        exact leads_to_answer_of_inside hin

/-- **Every call can answer.** From every state that can be reached, the calls
that are there can all be brought to their answers. -/
theorem answers_all {es : List (MonitorEvent O R)}
    (h : Runs (Next code) { shared := s₀ } es m) :
    Runs.Leads (Next code) Inner (fun t => ∀ stage ∈ t.calls, stage.isAnswered = true) m := by
  induction hn : m.openCalls using Nat.strongRecOn generalizing es m with
  | ind n ih =>
    by_cases hall : ∀ stage ∈ m.calls, stage.isAnswered = true
    · exact .here hall
    · simp only [not_forall, Bool.not_eq_true] at hall
      obtain ⟨stage, hmem, hopen⟩ := hall
      obtain ⟨c, hc⟩ := List.mem_iff_getElem?.mp hmem
      obtain ⟨fs, t, hrun, hinner, hlt⟩ := leads_to_answer (Account.of_runs h) hc hopen
      obtain ⟨gs, u, hrun', hinner', hu⟩ := ih t.openCalls (hn ▸ hlt) (h.append hrun) rfl
      exact ⟨fs ++ gs, u, hrun.append hrun', fun e he =>
        (List.mem_append.mp he).elim (hinner e) (hinner' e), hu⟩

end Monitor
