import Mathlib.Data.List.Basic

/-!
# Programs that call on a world

A `Program` makes calls one after the other, each continued by the result or
the exception it was answered with. The world answers, and others interfere
with it between any two calls (`Surroundings`); `Program.Exec` are the
executions, finished or not.

Which calls are permitted may depend on the calls before them. `Program.Guarded`
is the weakest precondition for "every call is permitted, and the outcome
satisfies `Q`": it has a rule for each construct, and `Guarded.sound` carries it
over to all executions.
-/

/-- A program that makes calls `op`, each answered by a `Res op` or an exception. -/
inductive Program (Op : Type) (Res : Op → Type) (X α : Type) where
  | ret (a : α)
  | throw (x : X)
  | call (op : Op) (rest : Except X (Res op) → Program Op Res X α)

variable {Op : Type} {Res : Op → Type} {X α β : Type}

namespace Program

/-- Continue with the outcome of `p`, a result or an exception. -/
def andThen : Program Op Res X α → (Except X α → Program Op Res X β) → Program Op Res X β
  | ret a, f => f (.ok a)
  | throw x, f => f (.error x)
  | call op rest, f => call op fun answer => (rest answer).andThen f

/-- A program with the given outcome. -/
def done : Except X α → Program Op Res X α
  | .ok a => ret a
  | .error x => throw x

/-- Every call the program may make satisfies `P`. -/
def Calls (P : Op → Prop) : Program Op Res X α → Prop
  | ret _ | throw _ => True
  | call op rest => P op ∧ ∀ answer, (rest answer).Calls P

theorem done_andThen (outcome : Except X α) (f : Except X α → Program Op Res X β) :
    (done outcome).andThen f = f outcome := by
  cases outcome with
  | ok | error => rfl

instance : Monad (Program Op Res X) where
  pure := ret
  bind p f := p.andThen fun
    | .ok a => f a
    | .error x => throw x

/-- One call. -/
def perform (op : Op) : Program Op Res X (Res op) := call op done

theorem call_eq_andThen (op : Op) (rest : Except X (Res op) → Program Op Res X α) :
    call op rest = (perform op).andThen rest := by
  simp only [perform, andThen, done_andThen]

/-- `try p except x: handler x`. -/
def catching (p : Program Op Res X α) (handler : X → Program Op Res X α) : Program Op Res X α :=
  p.andThen fun
    | .ok a => ret a
    | .error x => handler x

/-- `with p`: `exit` follows and is told what became of `p`, and what it raises
replaces what `p` raised. -/
def leaving (p : Program Op Res X α) (exit : Except X α → Program Op Res X Unit) :
    Program Op Res X α :=
  p.andThen fun outcome => (exit outcome).andThen fun
    | .ok () => done outcome
    | .error x => throw x

/-- `try p finally q`: `q` follows whatever becomes of `p`. -/
def finallyDo (p : Program Op Res X α) (q : Program Op Res X Unit) : Program Op Res X α :=
  p.leaving fun _ => q

namespace Calls

variable {P : Op → Prop}

theorem done (outcome : Except X α) : (done outcome : Program Op Res X α).Calls P := by
  cases outcome with
  | ok | error => exact trivial

theorem perform {op : Op} (h : P op) : (perform op : Program Op Res X (Res op)).Calls P :=
  ⟨h, done⟩

theorem andThen {p : Program Op Res X α} {f : Except X α → Program Op Res X β} (h : p.Calls P)
    (hf : ∀ outcome, (f outcome).Calls P) : (p.andThen f).Calls P := by
  induction p with
  | ret | throw => exact hf _
  | call op rest ih => exact ⟨h.1, fun answer => ih answer (h.2 answer)⟩

theorem all (p : Program Op Res X α) : p.Calls fun _ => True := by
  induction p with
  | ret | throw => exact trivial
  | call op rest ih => exact ⟨trivial, ih⟩

theorem bind {p : Program Op Res X α} {f : α → Program Op Res X β} (h : p.Calls P)
    (hf : ∀ a, (f a).Calls P) : (p >>= f).Calls P :=
  andThen h fun outcome => by
    cases outcome with
    | ok a => exact hf a
    | error => exact trivial

end Calls

/-- The outcome of `try p finally q`. -/
def finalOutcome (outcome : Except X α) : Except X Unit → Except X α
  | .ok () => outcome
  | .error x => .error x

end Program

/-- What surrounds a program: how the world answers calls, and what others do
to it in the meantime. -/
structure Surroundings (W Op : Type) (Res : Op → Type) (X : Type) where
  answers : W → (op : Op) → Except X (Res op) → W → Prop
  interferes : W → W → Prop

/-- A call, its answer, and the world at the call and after it. -/
structure Event (W Op : Type) (Res : Op → Type) (X : Type) where
  before : W
  op : Op
  answer : Except X (Res op)
  after : W

variable {W : Type}

/-- Every call of `es` is permitted, given `past` and the calls before it. -/
def Accepted (permits : List (Event W Op Res X) → Event W Op Res X → Prop)
    (past : List (Event W Op Res X)) : List (Event W Op Res X) → Prop
  | [] => True
  | e :: es => permits past e ∧ Accepted permits (past ++ [e]) es

theorem permits_of_accepted {permits : List (Event W Op Res X) → Event W Op Res X → Prop}
    {past es rest : List (Event W Op Res X)} {e : Event W Op Res X}
    (h : Accepted permits past (es ++ e :: rest)) : permits (past ++ es) e := by
  induction es generalizing past with
  | nil => simpa using h.1
  | cons first es ih => simpa using ih h.2

namespace Program

variable {env : Surroundings W Op Res X}
  {permits : List (Event W Op Res X) → Event W Op Res X → Prop}

/-- The executions of a program up to some point: the events so far, and what is
left to do. -/
inductive Exec (env : Surroundings W Op Res X) :
    Program Op Res X α → W → List (Event W Op Res X) → Program Op Res X α → W → Prop
  | stop {p : Program Op Res X α} {w : W} : Exec env p w [] p w
  | call {op : Op} {rest : Except X (Res op) → Program Op Res X α} {w v w' u : W}
      {answer : Except X (Res op)} {es : List (Event W Op Res X)} {q : Program Op Res X α} :
      env.interferes w v → env.answers v op answer w' → Exec env (rest answer) w' es q u →
      Exec env (.call op rest) w (⟨v, op, answer, w'⟩ :: es) q u

/-- Where every call is answered, a program comes to its end. -/
theorem exists_exec
    (hanswers : ∀ w op, ∃ v answer w', env.interferes w v ∧ env.answers v op answer w')
    (p : Program Op Res X α) (w : W) :
    ∃ es outcome w', Exec env p w es (done outcome) w' := by
  induction p generalizing w with
  | ret a => exact ⟨[], .ok a, w, .stop⟩
  | throw x => exact ⟨[], .error x, w, .stop⟩
  | call op rest ih =>
    obtain ⟨v, answer, w', hint, hans⟩ := hanswers w op
    obtain ⟨es, outcome, u, hexec⟩ := ih answer w'
    exact ⟨_, outcome, u, .call hint hans hexec⟩

/-- After the calls `past`, every call `p` makes is permitted, and its outcome
satisfies `Q`. -/
def Guarded (env : Surroundings W Op Res X)
    (permits : List (Event W Op Res X) → Event W Op Res X → Prop)
    (Q : Except X α → List (Event W Op Res X) → W → Prop) :
    Program Op Res X α → List (Event W Op Res X) → W → Prop
  | ret a, past, w => Q (.ok a) past w
  | throw x, past, w => Q (.error x) past w
  | call op rest, past, w => ∀ v answer w', env.interferes w v → env.answers v op answer w' →
      permits past ⟨v, op, answer, w'⟩
        ∧ (rest answer).Guarded env permits Q (past ++ [⟨v, op, answer, w'⟩]) w'

namespace Guarded

variable {Q Q' : Except X α → List (Event W Op Res X) → W → Prop}
  {past : List (Event W Op Res X)} {w : W}

theorem of_done {outcome : Except X α} (h : Q outcome past w) :
    (done outcome : Program Op Res X α).Guarded env permits Q past w := by
  cases outcome with
  | ok | error => exact h

/-- **Consequence.** -/
theorem mono {p : Program Op Res X α} (h : p.Guarded env permits Q past w)
    (hQ : ∀ outcome past w, Q outcome past w → Q' outcome past w) :
    p.Guarded env permits Q' past w := by
  induction p generalizing past w with
  | ret | throw => exact hQ _ _ _ h
  | call op rest ih =>
    intro v answer w' hint hans
    obtain ⟨hpermit, hrest⟩ := h v answer w' hint hans
    exact ⟨hpermit, ih answer hrest⟩

/-- **Sequencing.** -/
theorem andThen {p : Program Op Res X α} {f : Except X α → Program Op Res X β}
    {Q : Except X β → List (Event W Op Res X) → W → Prop}
    (h : p.Guarded env permits (fun outcome past w => (f outcome).Guarded env permits Q past w)
      past w) :
    (p.andThen f).Guarded env permits Q past w := by
  induction p generalizing past w with
  | ret | throw => exact h
  | call op rest ih =>
    intro v answer w' hint hans
    obtain ⟨hpermit, hrest⟩ := h v answer w' hint hans
    exact ⟨hpermit, ih answer hrest⟩

theorem bind {p : Program Op Res X α} {f : α → Program Op Res X β}
    {Q : Except X β → List (Event W Op Res X) → W → Prop}
    (h : p.Guarded env permits (fun outcome past w => match outcome with
      | .ok a => (f a).Guarded env permits Q past w
      | .error x => Q (.error x) past w) past w) :
    (p >>= f).Guarded env permits Q past w := by
  refine andThen (h.mono fun outcome past w hout => ?_)
  cases outcome with
  | ok | error => exact hout

theorem perform {op : Op} {Q : Except X (Res op) → List (Event W Op Res X) → W → Prop}
    (h : ∀ v answer w', env.interferes w v → env.answers v op answer w' →
      permits past ⟨v, op, answer, w'⟩ ∧ Q answer (past ++ [⟨v, op, answer, w'⟩]) w') :
    (Program.perform op).Guarded env permits Q past w := by
  intro v answer w' hint hans
  obtain ⟨hpermit, hQ⟩ := h v answer w' hint hans
  exact ⟨hpermit, of_done hQ⟩

theorem catching {p : Program Op Res X α} {handler : X → Program Op Res X α}
    (h : p.Guarded env permits (fun outcome past w => match outcome with
      | .ok a => Q (.ok a) past w
      | .error x => (handler x).Guarded env permits Q past w) past w) :
    (p.catching handler).Guarded env permits Q past w := by
  refine andThen (h.mono fun outcome past w hout => ?_)
  cases outcome with
  | ok | error => exact hout

theorem leaving {p : Program Op Res X α} {exit : Except X α → Program Op Res X Unit}
    (h : p.Guarded env permits (fun outcome past w =>
      (exit outcome).Guarded env permits (fun last past w => Q (finalOutcome outcome last) past w)
        past w) past w) :
    (p.leaving exit).Guarded env permits Q past w := by
  refine andThen (h.mono fun outcome past w hout => andThen (hout.mono fun last past w hlast => ?_))
  cases last with
  | ok => exact of_done hlast
  | error => exact hlast

theorem finallyDo {p : Program Op Res X α} {q : Program Op Res X Unit}
    (h : p.Guarded env permits (fun outcome past w =>
      q.Guarded env permits (fun last past w => match last with
        | .ok () => Q outcome past w
        | .error x => Q (.error x) past w) past w) past w) :
    (p.finallyDo q).Guarded env permits Q past w :=
  leaving (h.mono fun outcome past w hout => hout.mono fun last past w hlast => by
    cases last with
    | ok | error => exact hlast)

theorem ret {a : α} (h : Q (.ok a) past w) :
    (Program.ret a : Program Op Res X α).Guarded env permits Q past w := h

theorem throw {x : X} (h : Q (.error x) past w) :
    (Program.throw x : Program Op Res X α).Guarded env permits Q past w := h

/-- As `finallyDo`, with the two outcomes put together. -/
theorem finallyDo_final {p : Program Op Res X α} {q : Program Op Res X Unit}
    (h : p.Guarded env permits (fun outcome past w =>
      q.Guarded env permits (fun last past w => Q (finalOutcome outcome last) past w) past w)
      past w) :
    (p.finallyDo q).Guarded env permits Q past w := leaving h

/-- **Invariance**: what every call of the program keeps, it keeps. -/
theorem invariant {P : Op → Prop} {I : List (Event W Op Res X) → W → Prop}
    {p : Program Op Res X α} (hcalls : p.Calls P)
    (hstep : ∀ past w v op answer w', P op → I past w → env.interferes w v →
      env.answers v op answer w' →
      permits past ⟨v, op, answer, w'⟩ ∧ I (past ++ [⟨v, op, answer, w'⟩]) w')
    (h : I past w) : p.Guarded env permits (fun _ past w => I past w) past w := by
  induction p generalizing past w with
  | ret | throw => exact h
  | call op rest ih =>
    intro v answer w' hint hans
    obtain ⟨hpermit, hkeep⟩ := hstep past w v op answer w' hcalls.1 h hint hans
    exact ⟨hpermit, ih answer (hcalls.2 answer) hkeep⟩

/-- **Soundness**: every call of every execution is permitted. -/
theorem sound {p q : Program Op Res X α} {es : List (Event W Op Res X)} {u : W}
    (h : p.Guarded env permits Q past w) (hexec : Exec env p w es q u) :
    Accepted permits past es ∧ q.Guarded env permits Q (past ++ es) u := by
  induction hexec generalizing past with
  | stop => exact ⟨trivial, by simpa using h⟩
  | call hint hans _ ih =>
    obtain ⟨hpermit, hrest⟩ := h _ _ _ hint hans
    obtain ⟨haccepted, hleft⟩ := ih hrest
    exact ⟨⟨hpermit, haccepted⟩, by simpa using hleft⟩

end Guarded

/-- What two derivations guarantee. -/
theorem Guarded.and {Q Q' : Except X α → List (Event W Op Res X) → W → Prop}
    {permits' : List (Event W Op Res X) → Event W Op Res X → Prop} {p : Program Op Res X α}
    {past : List (Event W Op Res X)} {w : W} (h : p.Guarded env permits Q past w)
    (h' : p.Guarded env permits' Q' past w) :
    p.Guarded env permits (fun outcome past w => Q outcome past w ∧ Q' outcome past w) past w := by
  induction p generalizing past w with
  | ret | throw => exact ⟨h, h'⟩
  | call op rest ih =>
    intro v answer w' hint hans
    obtain ⟨hpermit, hrest⟩ := h v answer w' hint hans
    exact ⟨hpermit, ih answer hrest (h' v answer w' hint hans).2⟩

/-- What holds of the outcome of every finished execution. -/
theorem Guarded.outcome {Q : Except X α → List (Event W Op Res X) → W → Prop}
    {p : Program Op Res X α} {past es : List (Event W Op Res X)} {w u : W} {outcome : Except X α}
    (h : p.Guarded env permits Q past w) (hexec : Exec env p w es (done outcome) u) :
    Q outcome (past ++ es) u := by
  have hleft := (h.sound hexec).2
  cases outcome with
  | ok | error => exact hleft

end Program

/-! ## What a program raises -/

namespace Program

/-- Whatever the program raises satisfies `P`, given the calls so far. -/
def Raises (env : Surroundings W Op Res X) (P : List (Event W Op Res X) → X → Prop)
    (p : Program Op Res X α) : Prop :=
  ∀ past w, p.Guarded env (fun _ _ => True)
    (fun outcome past _ => ∀ x, outcome = .error x → P past x) past w

namespace Raises

variable {env : Surroundings W Op Res X} {P : List (Event W Op Res X) → X → Prop}

theorem ret (a : α) : Raises env P (.ret a : Program Op Res X α) := fun _ _ _ hx => by cases hx

theorem perform {op : Op}
    (h : ∀ past v x w, env.answers v op (.error x) w → P (past ++ [⟨v, op, .error x, w⟩]) x) :
    Raises env P (Program.perform op) := fun past _ =>
  .perform fun v answer w _ hans => ⟨trivial, fun x hx => by subst hx; exact h past v x w hans⟩

theorem bind {p : Program Op Res X α} {f : α → Program Op Res X β} (h : Raises env P p)
    (hf : ∀ a, Raises env P (f a)) : Raises env P (p >>= f) := fun past w =>
  .bind ((h past w).mono fun outcome past w hout => by
    cases outcome with
    | ok a => exact hf a past w
    | error x => exact fun y hy => by cases hy; exact hout x rfl)

/-- A handler is told what is true of the exception. -/
theorem catching {p : Program Op Res X α} {handler : X → Program Op Res X α}
    (h : Raises env P p) (hhandler : ∀ x past w, P past x →
      (handler x).Guarded env (fun _ _ => True)
        (fun outcome past _ => ∀ y, outcome = .error y → P past y) past w) :
    Raises env P (p.catching handler) := fun past w =>
  .catching ((h past w).mono fun outcome past w hout => by
    cases outcome with
    | ok => exact fun y hy => by cases hy
    | error x => exact hhandler x past w (hout x rfl))

/-- What is true of an exception stays true while the program goes on. -/
theorem leaving {p : Program Op Res X α} {exit : Except X α → Program Op Res X Unit}
    (hkeep : ∀ past e x, P past x → P (past ++ [e]) x) (h : Raises env P p)
    (hexit : ∀ outcome, Raises env P (exit outcome)) : Raises env P (p.leaving exit) :=
  fun past w => .leaving ((h past w).mono fun outcome past w hout => by
    have hkept : (exit outcome).Guarded env (fun _ _ => True)
        (fun _ past _ => ∀ x, outcome = .error x → P past x) past w :=
      .invariant (.all _) (fun past _ v op answer w' _ hI _ _ =>
        ⟨trivial, fun x hx => hkeep past ⟨v, op, answer, w'⟩ x (hI x hx)⟩) hout
    refine ((hexit outcome past w).and hkept).mono fun last past w hlast => ?_
    cases last with
    | ok => exact hlast.2
    | error x => exact fun y hy => by cases hy; exact hlast.1 x rfl)

theorem finallyDo {p : Program Op Res X α} {q : Program Op Res X Unit}
    (hkeep : ∀ past e x, P past x → P (past ++ [e]) x) (h : Raises env P p)
    (hq : Raises env P q) : Raises env P (p.finallyDo q) := leaving hkeep h fun _ => hq

end Raises

end Program

/-! ## Calls whose failures are collected -/

/-- The calls of a program, with their answers. -/
abbrev Program.CallEvent (W Op : Type) (Res : Op → Type) (X : Type) := Event W Op Res X

/-- What the call raised. -/
def Event.raised? (e : Event W Op Res X) : Option X :=
  match e.answer with
  | .ok _ => none
  | .error x => some x

/-- All that a sequence of calls raised, in order. -/
def raisedBy (es : List (Event W Op Res X)) : List X := es.filterMap Event.raised?

@[simp] theorem raisedBy_nil : raisedBy ([] : List (Event W Op Res X)) = [] := rfl

@[simp] theorem raisedBy_cons (e : Event W Op Res X) (es : List (Event W Op Res X)) :
    raisedBy (e :: es) = e.raised?.toList ++ raisedBy es := by
  cases h : e.raised? <;> simp [raisedBy, h]

theorem raisedBy_eq_nil_iff {es : List (Event W Op Res X)} :
    raisedBy es = [] ↔ ∀ e ∈ es, e.raised? = none := List.filterMap_eq_nil_iff

namespace Program

/-- Make the calls one after the other, go on after an exception that is `caught`,
and return those that were. -/
def attemptAll (caught : X → Bool) : List Op → Program Op Res X (List X)
  | [] => ret []
  | op :: rest => call op fun
    | .ok _ => attemptAll caught rest
    | .error x => if caught x then do return x :: (← attemptAll caught rest) else throw x

/-- Where every exception is caught, every call is made, and all that was raised
is returned in order. -/
theorem Guarded.attemptAll {env : Surroundings W Op Res X} {caught : X → Bool} {ops : List Op}
    (hcaught : ∀ op ∈ ops, ∀ v x w', env.answers v op (.error x) w' → caught x = true)
    {Q : Except X (List X) → List (Event W Op Res X) → W → Prop} {past : List (Event W Op Res X)}
    {w : W}
    (hQ : ∀ es w', es.map Event.op = ops → Q (.ok (raisedBy es)) (past ++ es) w') :
    (Program.attemptAll caught ops).Guarded env (fun _ _ => True) Q past w := by
  induction ops generalizing Q past w with
  | nil =>
    show Q (.ok []) past w
    simpa using hQ [] w rfl
  | cons op rest ih =>
    have hrest : ∀ op ∈ rest, ∀ v x w', env.answers v op (.error x) w' → caught x = true :=
      fun op hop => hcaught op (List.mem_cons_of_mem _ hop)
    intro v answer w' _ hans
    refine ⟨trivial, ?_⟩
    cases answer with
    | ok result =>
      refine ih hrest fun es u hes => ?_
      simpa [Event.raised?] using hQ (⟨v, op, .ok result, w'⟩ :: es) u (by simp [hes])
    | error x =>
      simp only [hcaught op (by simp) v x w' hans, if_true]
      refine Guarded.bind (ih hrest fun es u hes => ?_)
      show Q (.ok (x :: raisedBy es)) _ u
      simpa [Event.raised?] using hQ (⟨v, op, .error x, w'⟩ :: es) u (by simp [hes])

end Program

/-! ## The last call that failed -/

/-- The call and its exception, when it raised one. -/
def Event.failure? (e : Event W Op Res X) : Option (Op × X) :=
  match e.answer with
  | .ok _ => none
  | .error x => some (e.op, x)

/-- The last call that failed, and what it raised. -/
def lastFailure (es : List (Event W Op Res X)) : Option (Op × X) :=
  es.reverse.findSome? Event.failure?

/-- The last call that failed raised what is `bad` there. -/
def spoiled (bad : Op → X → Bool) (es : List (Event W Op Res X)) : Bool :=
  (lastFailure es).any fun f => bad f.1 f.2

/-- An exception that is `foreign` is on its way: the outcome, or one from before. -/
def raises (foreign : X → Bool) (before : Bool) : Except X α → Bool
  | .ok _ => before
  | .error x => foreign x

section LastFailure

variable {bad : Op → X → Bool} {foreign : X → Bool} {past : List (Event W Op Res X)}

theorem spoiled_append_ok {v w : W} {op : Op} {result : Res op} :
    spoiled bad (past ++ [⟨v, op, .ok result, w⟩]) = spoiled bad past := by
  rw [spoiled, lastFailure, List.reverse_append]
  rfl

theorem spoiled_append_error {v w : W} {op : Op} {x : X} :
    spoiled bad (past ++ [⟨v, op, .error x, w⟩]) = bad op x := by
  rw [spoiled, lastFailure, List.reverse_append]
  rfl

namespace Program

variable {env : Surroundings W Op Res X}

/-- After the calls `past`, the program ends in a foreign exception exactly when
the last call that failed raised a bad one. -/
def Tracked (env : Surroundings W Op Res X) (bad : Op → X → Bool) (foreign : X → Bool)
    (p : Program Op Res X α) (past : List (Event W Op Res X)) (w : W) : Prop :=
  p.Guarded env (fun _ _ => True)
    (fun outcome past _ => spoiled bad past = raises foreign false outcome) past w

/-- The program is tracked wherever nothing was spoiled before. -/
def Tracks (env : Surroundings W Op Res X) (bad : Op → X → Bool) (foreign : X → Bool)
    (p : Program Op Res X α) : Prop :=
  ∀ past w, spoiled bad past = false → Tracked env bad foreign p past w

/-- The program spoils what was not spoiled exactly by a foreign exception, and
mends what was by any other. -/
def Follows (env : Surroundings W Op Res X) (bad : Op → X → Bool) (foreign : X → Bool)
    (p : Program Op Res X α) : Prop :=
  ∀ past w, p.Guarded env (fun _ _ => True)
    (fun outcome past' _ => spoiled bad past' = raises foreign (spoiled bad past) outcome) past w

theorem Follows.tracks {p : Program Op Res X α} (h : Follows env bad foreign p) :
    Tracks env bad foreign p := by
  intro past w hpast
  have hp := h past w
  rwa [hpast] at hp

/-- A single call, which raises what is bad if and only if it is foreign. -/
theorem follows_answered {op : Op}
    (hbad : ∀ v x w, env.answers v op (.error x) w → bad op x = foreign x) :
    Follows env bad foreign (Program.perform op) := fun past w =>
  .perform fun v answer w' _ hans => by
    cases answer with
    | ok => exact ⟨trivial, spoiled_append_ok⟩
    | error x => exact ⟨trivial, spoiled_append_error.trans (hbad v x w' hans)⟩

/-- A single call. -/
theorem follows_perform {op : Op} (hbad : ∀ x, bad op x = foreign x) :
    Follows env bad foreign (Program.perform op) := follows_answered fun _ x _ _ => hbad x

theorem Follows.ret (a : α) : Follows env bad foreign (.ret a : Program Op Res X α) :=
  fun _ _ => rfl

theorem Follows.bind {p : Program Op Res X α} {f : α → Program Op Res X β}
    (h : Follows env bad foreign p) (hf : ∀ a, Follows env bad foreign (f a)) :
    Follows env bad foreign (p >>= f) := fun past w =>
  Guarded.bind ((h past w).mono fun outcome past' w' hout => by
    cases outcome with
    | error => exact hout
    | ok a =>
      refine (hf a past' w').mono fun last past'' w'' hlast => hlast.trans ?_
      rw [show spoiled bad past' = spoiled bad past from hout])

theorem Follows.finallyDo {p : Program Op Res X α} {q : Program Op Res X Unit}
    (h : Follows env bad foreign p) (hq : Follows env bad foreign q) :
    Follows env bad foreign (p.finallyDo q) := fun past w =>
  Guarded.finallyDo ((h past w).mono fun outcome past' w' hout =>
    (hq past' w').mono fun last past'' w'' hlast => by
      cases last with
      | ok => exact hlast.trans hout
      | error => exact hlast)

namespace Tracked

variable {w : W}

theorem throw {x : X} (hx : spoiled bad past = foreign x) :
    Tracked env bad foreign (.throw x : Program Op Res X α) past w := hx

theorem andThen {p : Program Op Res X α} {f : Except X α → Program Op Res X β}
    (h : Tracked env bad foreign p past w)
    (hf : ∀ outcome past w, spoiled bad past = raises foreign false outcome →
      Tracked env bad foreign (f outcome) past w) :
    Tracked env bad foreign (p.andThen f) past w :=
  Guarded.andThen (h.mono fun outcome past w hout => hf outcome past w hout)

/-- What follows in any case replaces the exception only by its own. -/
theorem leaving {p : Program Op Res X α} {exit : Except X α → Program Op Res X Unit}
    (h : Tracked env bad foreign p past w)
    (hexit : ∀ outcome, Follows env bad foreign (exit outcome)) :
    Tracked env bad foreign (p.leaving exit) past w :=
  Guarded.leaving (h.mono fun outcome past w hout =>
    (hexit outcome past w).mono fun last past' w hlast => by
      cases last with
      | ok => exact hlast.trans hout
      | error => exact hlast)

theorem finallyDo {p : Program Op Res X α} {q : Program Op Res X Unit}
    (h : Tracked env bad foreign p past w) (hq : Follows env bad foreign q) :
    Tracked env bad foreign (p.finallyDo q) past w := h.leaving fun _ => hq

end Tracked

namespace Tracks

theorem ret (a : α) : Tracks env bad foreign (.ret a : Program Op Res X α) :=
  fun _ _ h => h

theorem throw {x : X} (hx : foreign x = false) :
    Tracks env bad foreign (.throw x : Program Op Res X α) :=
  fun _ _ h => h.trans hx.symm

theorem perform {op : Op} (hbad : ∀ x, bad op x = foreign x) :
    Tracks env bad foreign (Program.perform op) := (follows_perform hbad).tracks

theorem bind {p : Program Op Res X α} {f : α → Program Op Res X β}
    (h : Tracks env bad foreign p) (hf : ∀ a, Tracks env bad foreign (f a)) :
    Tracks env bad foreign (p >>= f) := fun past w hpast =>
  (h past w hpast).andThen fun outcome past w hout => by
    cases outcome with
    | ok a => exact hf a past w hout
    | error => exact hout

theorem done {outcome : Except X α} (h : ∀ x, outcome = .error x → foreign x = false) :
    Tracks env bad foreign (.done outcome : Program Op Res X α) := by
  cases outcome with
  | ok a => exact ret a
  | error x => exact throw (h x rfl)

theorem leaving {p : Program Op Res X α} {exit : Except X α → Program Op Res X Unit}
    (h : Tracks env bad foreign p) (hexit : ∀ outcome, Follows env bad foreign (exit outcome)) :
    Tracks env bad foreign (p.leaving exit) := fun past w hpast => (h past w hpast).leaving hexit

theorem finallyDo {p : Program Op Res X α} {q : Program Op Res X Unit}
    (h : Tracks env bad foreign p) (hq : Follows env bad foreign q) :
    Tracks env bad foreign (p.finallyDo q) := h.leaving fun _ => hq

/-- A handler is told what the program raised. What is foreign to the program
need not be foreign to those who call it. -/
theorem catching {p : Program Op Res X α} {handler : X → Program Op Res X α}
    {inner : X → Bool} (h : Tracks env bad inner p)
    (hhandler : ∀ x past w, spoiled bad past = inner x →
      Tracked env bad foreign (handler x) past w) :
    Tracks env bad foreign (p.catching handler) := fun past w hpast =>
  Guarded.catching <| (h past w hpast).mono fun outcome past w hout => by
    cases outcome with
    | ok => exact hout
    | error x => exact hhandler x past w hout

end Tracks

end Program

end LastFailure
