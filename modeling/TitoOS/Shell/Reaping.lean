import TitoOS.Shell.Running

/-!
# What becomes of the child

`ShellIntegration.run`, whatever the system answers: which calls it makes in
which state of the child (`run_calls`), what it gives back and leaves behind
(`run_accounts_for_child`), and which exceptions leave it that are not its own
(`run_raises_iff`).

The exception of `process.stdin.close()` is one of those: the child that exits
before it has read all makes `run` raise a `BrokenPipeError`, although the one of
`write` is taken care of.
-/

namespace TitoOS

variable {W : Type} {env : Surroundings W ShellCall ShellCall.Result ShellRaised}

/-- A call of `run` and what it was answered. -/
abbrev ShellEvent (W : Type) := Program.CallEvent W ShellCall ShellCall.Result ShellRaised

/-- The driver has a handler for the exception, where it makes the call. -/
def caught : ShellCall → ShellRaised → Bool
  | .popen .., .osError _ => true
  | .write _, .osError _ | .write _, .timeoutExpired | .wait (some _), .timeoutExpired => true
  | _, _ => false

/-- The exception goes through to the caller. -/
def uncaught (op : ShellCall) (x : ShellRaised) : Bool := x.isForeign && !caught op x

/-- `subprocess.TimeoutExpired` is raised by a wait that has a timeout. -/
def OnlyWaitsExpire (env : Surroundings W ShellCall ShellCall.Result ShellRaised) : Prop :=
  ∀ v op w, env.answers v op (.error .timeoutExpired) w → ∃ limit, op = .wait (some limit)

/-! ## What `run` raises -/

namespace ShellRunner

variable (self : ShellRunner) {Object : Type} {toStr : Object → String} {lower : String → String}
  {command : Command Object} {stdin : Option String} {timeout : Option Rat} {check : Bool}

/-- The exceptions that leave the block `try`. -/
def leavesTry (x : ShellRaised) : Bool := x.isForeign && x != .timeoutExpired

theorem leavesTry_of_ne {x : ShellRaised} (h : x ≠ .timeoutExpired) :
    leavesTry x = x.isForeign := by
  simp [leavesTry, h]

theorem follows_of_uncaught {op : ShellCall} (h : ∀ x, caught op x = false) :
    Program.Follows env uncaught ShellRaised.isForeign (shell op) :=
  Program.follows_perform fun x => by simp [uncaught, h]

theorem follows_drain : Program.Follows env uncaught ShellRaised.isForeign self.drain :=
  (follows_of_uncaught fun _ => rfl).bind fun _ => follows_of_uncaught fun _ => rfl

theorem follows_exit (piped interrupted : Bool) :
    Program.Follows env uncaught ShellRaised.isForeign (exit piped interrupted) := by
  refine (follows_of_uncaught fun _ => rfl).bind fun _ =>
    (follows_of_uncaught fun _ => rfl).bind fun _ => ?_
  cases interrupted with
  | true => exact follows_of_uncaught fun _ => rfl
  | false =>
    refine .finallyDo ?_ ((follows_of_uncaught fun _ => rfl).bind fun _ => .ret ())
    cases piped with
    | false => exact .ret ()
    | true => exact follows_of_uncaught fun _ => rfl

theorem tracks_feed (hwaits : OnlyWaitsExpire env) :
    Program.Tracks env uncaught leavesTry (feed stdin) := by
  cases stdin with
  | none => exact .ret ()
  | some text =>
    refine .finallyDo (.catching (.perform fun x => rfl) fun x past w hx => ?_)
      (Program.follows_answered fun v x w hans => ?_)
    · cases x with
      | osError => exact hx
      | integration | timeoutExpired | other => exact .throw hx
    · -- closing the pipe does not wait
      have hne : x ≠ .timeoutExpired := by
        rintro rfl
        obtain ⟨limit, hop⟩ := hwaits v _ w hans
        cases hop
      rw [leavesTry_of_ne hne]
      simp [uncaught, caught]

theorem tracks_converse (hwaits : OnlyWaitsExpire env) (limit : Rat) :
    Program.Tracks env uncaught ShellRaised.isForeign (self.converse stdin limit) := by
  refine .finallyDo (.catching (.bind (tracks_feed hwaits) fun _ =>
    .bind (.perform fun x => ?_) fun _ => .ret false) fun x past w hx => ?_) self.follows_drain
  · cases x with
    | integration | timeoutExpired | osError | other => rfl
  · cases x with
    | timeoutExpired =>
      exact ((follows_of_uncaught fun _ => rfl).bind fun _ =>
        (follows_of_uncaught fun _ => rfl).bind fun _ => .ret true).tracks past w hx
    | integration | osError | other => exact .throw hx

theorem tracks_attend (hwaits : OnlyWaitsExpire env) (limit : Rat) :
    Program.Tracks env uncaught ShellRaised.isForeign (self.attend stdin limit) :=
  .leaving (.bind (follows_of_uncaught fun _ => rfl).tracks fun _ =>
    .bind (follows_of_uncaught fun _ => rfl).tracks fun _ => self.tracks_converse hwaits limit)
    fun outcome => follows_exit stdin.isSome (interrupted outcome)

theorem judge_cases (check : Bool) (result : CommandResult) :
    (self.judge check result = .ok result ∧ (check = true → result.returncode = 0))
      ∨ self.judge check result
          = .error (self.failRun (.failed result.returncode (detail result)))
        ∧ check = true ∧ result.returncode ≠ 0 := by
  unfold judge CommandResult.ok
  cases check with
  | false => exact .inl ⟨rfl, nofun⟩
  | true =>
    by_cases h : result.returncode = 0
    · exact .inl ⟨by simp [h], fun _ => h⟩
    · exact .inr ⟨by simp [h], rfl, h⟩

theorem tracks_collect (argv : List String) :
    Program.Tracks env uncaught ShellRaised.isForeign (self.collect argv check) := by
  refine .bind (follows_of_uncaught fun _ => rfl).tracks fun stdout =>
    .bind (follows_of_uncaught fun _ => rfl).tracks fun stderr =>
      .bind (follows_of_uncaught fun _ => rfl).tracks fun returncode => .done fun x hx => ?_
  rcases self.judge_cases check { command := argv, returncode, stdout := stdout.text
                                  stderr := stderr.text } with ⟨hok, -⟩ | ⟨herr, -⟩
  · cases hok.symm.trans hx
  · cases herr.symm.trans hx
    rfl

theorem tracks_oversee (hwaits : OnlyWaitsExpire env) (argv : List String) (limit : Rat) :
    Program.Tracks env uncaught ShellRaised.isForeign (self.oversee argv stdin limit check) :=
  .bind (self.tracks_attend hwaits limit) fun timedOut => by
    cases timedOut with
    | true => exact .throw rfl
    | false => exact self.tracks_collect argv

theorem tracks_run (hwaits : OnlyWaitsExpire env) :
    Program.Tracks env uncaught ShellRaised.isForeign
      (self.run toStr lower command stdin timeout check) := by
  refine .bind (.done fun x hx => ?_) fun argv => .bind (.catching (.perform fun x => rfl)
    fun x past w hx => ?_) fun _ => self.tracks_oversee hwaits argv _
  · cases hres : self.resolve lower toStr command with
    | ok => simp [resolved, hres, Except.mapError] at hx
    | error e =>
      simp only [resolved, hres, Except.mapError, Except.error.injEq] at hx
      subst hx
      rfl
  · cases x with
    | integration | timeoutExpired | osError | other => exact .throw hx

end ShellRunner

/-! ## The child -/

/-- A world with a child in it: `code` is its exit status, once it has been waited
for. A reader is looked at between two steps of its thread. -/
structure ChildWorld (env : Surroundings W ShellCall ShellCall.Result ShellRaised)
    (code : W → Option Int) : Prop where
  kept_meanwhile : ∀ {v w c}, env.interferes v w → code v = some c → code w = some c
  kept : ∀ {v op answer w c}, env.answers v op answer w → code v = some c → code w = some c
  waited : ∀ {v timeout c w}, env.answers v (.wait timeout) (.ok c) w → code w = some c
  returncode : ∀ {v c w}, env.answers v .returncode (.ok c) w → code v = some c
  expires : OnlyWaitsExpire env
  foreign : ∀ {v op x w}, env.answers v op (.error x) w → x.isForeign = true
  looked : ∀ {v reader r w}, env.answers v (.look reader) (.ok r) w →
    ∃ steps, (BoundedReader.start reader.limit reader.limit_pos).Steps steps r

/-- `kill` was called. -/
def killed (es : List (ShellEvent W)) : Bool := es.any fun e => e.op = .kill

/-- The timeout expired. -/
def expired (es : List (ShellEvent W)) : Bool := es.any fun e => e.raised? = some .timeoutExpired

/-- An exception is on its way that nobody handles, or was. -/
def abandoned (es : List (ShellEvent W)) : Bool :=
  es.any fun e => e.failure?.any fun f => uncaught f.1 f.2

/-- A call raised a `KeyboardInterrupt`. -/
def disturbed (es : List (ShellEvent W)) : Bool :=
  es.any fun e => e.raised?.any ShellRaised.isInterrupt

section Events

variable {past : List (ShellEvent W)} {e : ShellEvent W}

@[simp] theorem killed_append : killed (past ++ [e]) = (killed past || decide (e.op = .kill)) := by
  simp [killed]

@[simp] theorem expired_append :
    expired (past ++ [e]) = (expired past || decide (e.raised? = some .timeoutExpired)) := by
  simp [expired]

@[simp] theorem abandoned_append : abandoned (past ++ [e])
    = (abandoned past || e.failure?.any fun f => uncaught f.1 f.2) := by
  simp [abandoned]

@[simp] theorem disturbed_append : disturbed (past ++ [e])
    = (disturbed past || e.raised?.any ShellRaised.isInterrupt) := by
  simp [disturbed]

theorem disturbed_append_of (h : disturbed past = true) : disturbed (past ++ [e]) = true := by
  rw [disturbed_append, h]
  rfl

end Events

namespace ShellRunner

section Permits

variable (self : ShellRunner) {Object : Type} (toStr : Object → String) (lower : String → String)
  (command : Command Object) (stdin : Option String) (timeout : Option Rat)
  (code : W → Option Int)

/-- What `run` calls, and when: one child is started, from what `_resolve` gives;
it is killed when its timeout has just expired; without a timeout it is only waited
for when its status is known, or it was killed, or given up on; and it is left after
a moment only where a call was interrupted. -/
def Permitted (past : List (ShellEvent W)) (e : ShellEvent W) : Prop :=
  match e.op with
  | .popen argv piped cwd env => past = [] ∧ self.resolve lower toStr command = .ok argv
      ∧ piped = stdin.isSome ∧ cwd = self.cwd ∧ env = self.env
  | .start reader | .join reader _ | .look reader => reader.limit = self.maxOutput
  | .write text => stdin = some text
  | .kill => past.getLast?.bind Event.raised? = some .timeoutExpired
  | .wait (some limit) => limit = timeout.getD self.timeout
  | .wait none =>
    (code e.before).isSome = true ∨ killed past = true ∨ abandoned past = true
  | .linger piped => piped = stdin.isSome ∧ disturbed past = true
  | .close _ | .returncode => True

end Permits

/-! ### Keeping account -/

/-- The child's status is known, or it was killed, or given up on. -/
def Settled (code : W → Option Int) (past : List (ShellEvent W)) (w : W) : Prop :=
  (code w).isSome = true ∨ killed past = true ∨ abandoned past = true

/-- So far the child was killed, its timeout having expired, or (`b` is false)
neither happened. -/
def Counts (b : Bool) (past : List (ShellEvent W)) : Prop := killed past = b ∧ expired past = b

section Account

variable {self : ShellRunner} {Object : Type} {toStr : Object → String} {lower : String → String}
  {command : Command Object} {stdin : Option String} {timeout : Option Rat}
  {code : W → Option Int} {past : List (ShellEvent W)} {b : Bool} {v w w' : W} {op : ShellCall}
  {answer : Except ShellRaised op.Result}

theorem isSome_of_kept {c? d? : Option Int} (hkept : ∀ c, c? = some c → d? = some c)
    (h : c?.isSome = true) : d?.isSome = true := by
  obtain ⟨c, hc⟩ := Option.isSome_iff_exists.mp h
  rw [hkept c hc]
  rfl

theorem Settled.call (hworld : ChildWorld env code) (h : Settled code past w)
    (hint : env.interferes w v) (hans : env.answers v op answer w') :
    Settled code (past ++ [⟨v, op, answer, w'⟩]) w' := by
  rcases h with hcode | hkilled | habandoned
  · exact .inl (isSome_of_kept (fun _ hc => hworld.kept hans (hworld.kept_meanwhile hint hc)) hcode)
  · exact .inr (.inl (by simp [hkilled]))
  · exact .inr (.inr (by simp [habandoned]))

theorem settled_of_error (hworld : ChildWorld env code) {x : ShellRaised}
    (hcaught : caught op x = false) (hans : env.answers v op (.error x) w') :
    Settled code (past ++ [⟨v, op, .error x, w'⟩]) w' := by
  refine .inr (.inr ?_)
  simp [Event.failure?, uncaught, hcaught, hworld.foreign hans]

theorem ne_timeoutExpired (hworld : ChildWorld env code) {x : ShellRaised}
    (hop : ∀ limit, op ≠ .wait (some limit)) (hans : env.answers v op (.error x) w') :
    x ≠ .timeoutExpired := by
  rintro rfl
  obtain ⟨limit, rfl⟩ := hworld.expires v op w' hans
  exact hop limit rfl

/-- Other calls than `kill` and a wait with a timeout leave the counts as they are. -/
theorem Counts.call (hworld : ChildWorld env code) (h : Counts b past) (hkill : op ≠ .kill)
    (hop : ∀ limit, op ≠ .wait (some limit)) (hans : env.answers v op answer w') :
    Counts b (past ++ [⟨v, op, answer, w'⟩]) := by
  refine ⟨by simpa [hkill] using h.1, ?_⟩
  cases answer with
  | ok => simpa [Event.raised?] using h.2
  | error x => simpa [Event.raised?, ne_timeoutExpired hworld hop hans] using h.2

/-- The calls that `run` makes whatever became of the child. -/
def Routine (self : ShellRunner) : ShellCall → Prop
  | .start reader | .join reader _ | .look reader => reader.limit = self.maxOutput
  | .close _ | .returncode | .wait none => True
  | _ => False

theorem routine_close (self : ShellRunner) (pipe : Pipe) : Routine self (.close pipe) := trivial

theorem routine_wait (self : ShellRunner) : Routine self (.wait none) := trivial

/-- A routine call keeps what is settled. -/
theorem routine_call (hworld : ChildWorld env code) (hop : Routine self op)
    (hcounts : Counts b past) (hsettled : Settled code past w) (hint : env.interferes w v)
    (hans : env.answers v op answer w') :
    self.Permitted toStr lower command stdin timeout code past ⟨v, op, answer, w'⟩
      ∧ Counts b (past ++ [⟨v, op, answer, w'⟩])
      ∧ Settled code (past ++ [⟨v, op, answer, w'⟩]) w' := by
  refine ⟨?_, hcounts.call hworld (by rintro rfl; exact hop) (by rintro limit rfl; exact hop) hans,
    hsettled.call hworld hint hans⟩
  have hcode : (code w).isSome = true → (code v).isSome = true :=
    isSome_of_kept fun _ => hworld.kept_meanwhile hint
  cases op with
  | wait limit =>
    cases limit with
    | none => exact hsettled.imp_left hcode
    | some => exact hop.elim
  | popen | write | kill | linger => exact hop.elim
  | start | join | look => exact hop
  | close | returncode => trivial

theorem guarded_routine (hworld : ChildWorld env code) (hop : Routine self op)
    (hcounts : Counts b past) (hsettled : Settled code past w)
    {Q : Except ShellRaised op.Result → List (ShellEvent W) → W → Prop}
    (hQ : ∀ v answer w', env.answers v op answer w' →
      Counts b (past ++ [⟨v, op, answer, w'⟩]) → Settled code (past ++ [⟨v, op, answer, w'⟩]) w' →
      Q answer (past ++ [⟨v, op, answer, w'⟩]) w') :
    (shell op).Guarded env (self.Permitted toStr lower command stdin timeout code) Q past w := by
  refine .perform fun v answer w' hint hans => ?_
  obtain ⟨hpermit, hcounts, hsettled⟩ := routine_call hworld hop hcounts hsettled hint hans
  exact ⟨hpermit, hQ v answer w' hans hcounts hsettled⟩

theorem guarded_drain (hworld : ChildWorld env code) (hcounts : Counts b past)
    (hsettled : Settled code past w) :
    self.drain.Guarded env (self.Permitted toStr lower command stdin timeout code)
      (fun _ past w => Counts b past ∧ Settled code past w) past w :=
  .invariant (P := Routine self) (.bind (.perform rfl) fun _ => .perform rfl)
    (fun _ _ _ _ _ _ hop h => routine_call hworld hop h.1 h.2) ⟨hcounts, hsettled⟩

/-- The last call failed, and the child may have been left behind. -/
def Lost (past : List (ShellEvent W)) : Prop :=
  ∃ e, past.getLast? = some e ∧ e.raised?.isSome = true
    ∧ (e.op = .close .stdout ∨ e.op = .close .stderr ∨ e.op = .wait none
      ∨ ∃ piped, e.op = .linger piped)

theorem lost_append {x : ShellRaised}
    (hop : op = .close .stdout ∨ op = .close .stderr ∨ op = .wait none
      ∨ ∃ piped, op = .linger piped) :
    Lost (past ++ [⟨v, op, .error x, w⟩]) := ⟨_, List.getLast?_concat, rfl, hop⟩

/-- **`Popen.__exit__`** waits for the child, or leaves it to its interrupt. -/
theorem guarded_exit (hworld : ChildWorld env code) (hcounts : Counts b past)
    (hsettled : Settled code past w) {interrupted : Bool}
    (hinterrupted : interrupted = true → disturbed past = true) :
    (exit stdin.isSome interrupted).Guarded env
      (self.Permitted toStr lower command stdin timeout code)
      (fun outcome past w => Counts b past
        ∧ (outcome = .ok () → (code w).isSome = true ∨ interrupted = true)
        ∧ ((code w).isSome = true ∨ Lost past ∨ outcome = .ok () ∧ interrupted = true)) past w := by
  refine .bind (guarded_routine hworld (self.routine_close .stdout) hcounts hsettled
    fun v answer w _ hcounts hsettled => ?_)
  cases answer with
  | error x => exact ⟨hcounts, nofun, .inr (.inl (lost_append (.inl rfl)))⟩
  | ok =>
    refine .bind (guarded_routine hworld (self.routine_close .stderr) hcounts hsettled
      fun v answer w _ hcounts hsettled => ?_)
    cases answer with
    | error x => exact ⟨hcounts, nofun, .inr (.inl (lost_append (.inr (.inl rfl))))⟩
    | ok =>
      cases interrupted with
      | true =>
        -- the exit of an interrupted call does not wait
        refine .perform fun v answer w hint hans =>
          ⟨⟨rfl, disturbed_append_of (disturbed_append_of (hinterrupted rfl))⟩,
          hcounts.call hworld (by simp) (by simp) hans, fun _ => .inr rfl, ?_⟩
        cases answer with
        | error x => exact .inr (.inl (lost_append (.inr (.inr (.inr ⟨_, rfl⟩)))))
        | ok => exact .inr (.inr ⟨rfl, rfl⟩)
      | false =>
        have hclose : (if stdin.isSome then shell (.close .stdin) else pure ()).Calls
            (Routine self) := by
          cases stdin with
          | none => exact trivial
          | some => exact .perform trivial
        refine .finallyDo ((Program.Guarded.invariant
          (I := fun past w => Counts b past ∧ Settled code past w) hclose
          (fun _ _ _ _ _ _ hop h => routine_call hworld hop h.1 h.2)
          ⟨hcounts, hsettled⟩).mono fun outcome past w h => ?_)
        refine .bind (guarded_routine hworld self.routine_wait h.1 h.2
          fun v answer w hans hcounts _ => ?_)
        cases answer with
        | error x => exact ⟨hcounts, nofun, .inr (.inl (lost_append (.inr (.inr (.inl rfl)))))⟩
        | ok c =>
          have hcode : (code w).isSome = true := by simp [hworld.waited hans]
          exact ⟨hcounts, fun _ => .inl hcode, .inl hcode⟩

/-- In the block `try`, before a timeout has expired: an exception that is on its
way is one that nobody handles. -/
def Attempted (code : W → Option Int) {α : Type} (outcome : Except ShellRaised α)
    (past : List (ShellEvent W)) (w : W) : Prop :=
  Counts false past ∧ ∀ x, outcome = .error x → x ≠ .timeoutExpired ∧ Settled code past w

theorem Attempted.of_error {α : Type} {x : ShellRaised} (hworld : ChildWorld env code)
    (hcounts : Counts false (past ++ [⟨v, op, .error x, w'⟩])) (hcaught : caught op x = false)
    (hop : ∀ limit, op ≠ .wait (some limit)) (hans : env.answers v op (.error x) w') :
    Attempted code (.error x : Except ShellRaised α) (past ++ [⟨v, op, .error x, w'⟩]) w' := by
  refine ⟨hcounts, fun y hy => ?_⟩
  cases hy
  exact ⟨ne_timeoutExpired hworld hop hans, settled_of_error hworld hcaught hans⟩

theorem guarded_closeStdin (hworld : ChildWorld env code) (outcome : Except ShellRaised Unit)
    (h : Attempted code outcome past w) :
    (shell (.close .stdin)).Guarded env (self.Permitted toStr lower command stdin timeout code)
      (fun last => Attempted code (Program.finalOutcome outcome last)) past w := by
  refine .perform fun v answer w hint hans => ⟨trivial, ?_⟩
  have hcounts := h.1.call hworld (by simp) (by simp) hans
  cases answer with
  | ok => exact ⟨hcounts, fun x hx => (h.2 x hx).imp_right fun hset => hset.call hworld hint hans⟩
  | error x => exact .of_error hworld hcounts rfl (by simp) hans

/-- **Feeding** the child. -/
theorem guarded_feed (hworld : ChildWorld env code) (hcounts : Counts false past) :
    (feed stdin).Guarded env (self.Permitted toStr lower command stdin timeout code)
      (Attempted code) past w := by
  cases stdin with
  | none => exact ⟨hcounts, fun x hx => by cases hx⟩
  | some text =>
    refine .finallyDo_final (.catching (.perform fun v answer w _ hans => ⟨rfl, ?_⟩))
    have hcounts := hcounts.call hworld (by simp) (by simp) hans
    have hfed : Attempted code (.ok () : Except ShellRaised Unit) _ w :=
      ⟨hcounts, fun x hx => by cases hx⟩
    cases answer with
    | ok => exact guarded_closeStdin hworld (.ok ()) hfed
    | error x =>
      cases x with
      | osError => exact .ret (guarded_closeStdin hworld (.ok ()) hfed)
      | timeoutExpired => exact absurd rfl (ne_timeoutExpired hworld (by simp) hans)
      | integration | other =>
        exact .throw (guarded_closeStdin hworld (.error _)
          (.of_error hworld hcounts rfl (by simp) hans))

/-- How the attempt ends: with what it settled, or with the timeout just expired. -/
def Tried (code : W → Option Int) (past : List (ShellEvent W)) (w : W) :
    Except ShellRaised Bool → Prop
  | .ok b => b = false ∧ Counts false past ∧ Settled code past w
  | .error x =>
    if x = .timeoutExpired then
      killed past = false ∧ expired past = true
        ∧ past.getLast?.bind Event.raised? = some .timeoutExpired
    else Counts false past ∧ Settled code past w

theorem guarded_attempt (hworld : ChildWorld env code) (hcounts : Counts false past) :
    (attempt stdin (timeout.getD self.timeout)).Guarded env
      (self.Permitted toStr lower command stdin timeout code)
      (fun outcome past w => Tried code past w outcome) past w := by
  refine .bind ((guarded_feed hworld hcounts).mono fun outcome past w h => ?_)
  cases outcome with
  | error x =>
    obtain ⟨hne, hsettled⟩ := h.2 x rfl
    show Tried code past w (.error x)
    rw [Tried, if_neg hne]
    exact ⟨h.1, hsettled⟩
  | ok =>
    refine .bind (.perform fun v answer w hint hans => ⟨rfl, ?_⟩)
    cases answer with
    | ok c =>
      refine .ret ⟨rfl, ?_, .inl (by simp [hworld.waited hans])⟩
      exact ⟨by simpa using h.1.1, by simpa [Event.raised?] using h.1.2⟩
    | error x =>
      show Tried code _ w (.error x)
      by_cases hexpired : x = .timeoutExpired
      · rw [Tried, if_pos hexpired]
        subst hexpired
        exact ⟨by simpa using h.1.1, by simp [Event.raised?], by simp [Event.raised?]⟩
      · rw [Tried, if_neg hexpired]
        refine ⟨⟨by simpa using h.1.1, by simpa [Event.raised?, hexpired] using h.1.2⟩,
          settled_of_error hworld ?_ hans⟩
        cases x with
        | timeoutExpired => exact absurd rfl hexpired
        | integration | osError | other => rfl

/-- What `run` knows about the child at the end of the block `try`. -/
def Known (code : W → Option Int) (outcome : Except ShellRaised Bool)
    (past : List (ShellEvent W)) (w : W) : Prop :=
  ∃ b, Counts b past ∧ Settled code past w ∧ ∀ b', outcome = .ok b' → b' = b

theorem guarded_terminate (hworld : ChildWorld env code)
    (h : Tried code past w (.error .timeoutExpired)) :
    terminate.Guarded env (self.Permitted toStr lower command stdin timeout code)
      (Known code) past w := by
  rw [Tried, if_pos rfl] at h
  refine .bind (.perform fun v answer w hint hans => ⟨h.2.2, ?_⟩)
  have hcounts : Counts true (past ++ [⟨v, .kill, answer, w⟩]) := ⟨by simp, by simp [h.2.1]⟩
  have hsettled : Settled code (past ++ [⟨v, .kill, answer, w⟩]) w := .inr (.inl (by simp))
  cases answer with
  | error => exact ⟨true, hcounts, hsettled, nofun⟩
  | ok =>
    refine .bind (guarded_routine hworld self.routine_wait hcounts hsettled
      fun v answer w hans hcounts hsettled => ?_)
    cases answer with
    | error => exact ⟨true, hcounts, hsettled, nofun⟩
    | ok => exact .ret ⟨true, hcounts, hsettled, fun b' hb' => by cases hb'; rfl⟩

/-- **The block `try`**: the child is killed if and only if its timeout expires. -/
theorem guarded_converse (hworld : ChildWorld env code) (hcounts : Counts false past) :
    (self.converse stdin (timeout.getD self.timeout)).Guarded env
      (self.Permitted toStr lower command stdin timeout code) (Known code) past w := by
  have hdrain : ∀ outcome past w, Known code outcome past w →
      self.drain.Guarded env (self.Permitted toStr lower command stdin timeout code)
        (fun last => Known code (Program.finalOutcome outcome last)) past w := by
    intro outcome past w ⟨b, hcounts, hsettled, hout⟩
    refine (guarded_drain hworld hcounts hsettled).mono fun last past w h => ⟨b, h.1, h.2, ?_⟩
    cases last with
    | ok => exact hout
    | error => exact fun b' hb' => by cases hb'
  refine .finallyDo_final (.mono (.catching (Q := Known code) ((guarded_attempt hworld hcounts).mono
    fun outcome past w h => ?_)) hdrain)
  cases outcome with
  | ok b => exact ⟨false, h.2.1, h.2.2, fun b' hb' => by cases hb'; exact h.1⟩
  | error x =>
    by_cases hexpired : x = .timeoutExpired
    · subst hexpired
      exact guarded_terminate hworld h
    · rw [Tried, if_neg hexpired] at h
      have hknown : Known code (.error x) past w := ⟨false, h.1, h.2, nofun⟩
      cases x with
      | timeoutExpired => exact absurd rfl hexpired
      | integration | osError | other => exact .throw hknown

/-- The child was started. -/
def Spawned (past : List (ShellEvent W)) : Prop :=
  ∃ e ∈ past, (∃ argv piped cwd env, e.op = .popen argv piped cwd env) ∧ e.raised? = none

/-- What holds at the end of the block `with`, and from there on. -/
def Attended (code : W → Option Int) (outcome : Except ShellRaised Bool)
    (past : List (ShellEvent W)) (w : W) : Prop :=
  ((code w).isSome = true ∨ Lost past ∨ interrupted outcome = true)
    ∧ ∃ b, Counts b past ∧ ∀ b', outcome = .ok b' → b' = b ∧ (code w).isSome = true

/-- What leaves the driver's calls is the system's, and an interrupt is one of a call. -/
def Passed (past : List (ShellEvent W)) (x : ShellRaised) : Prop :=
  x.isForeign = true ∧ (x.isInterrupt = true → disturbed past = true)

theorem Passed.append {x : ShellRaised} (h : Passed past x) (e : ShellEvent W) :
    Passed (past ++ [e]) x := ⟨h.1, fun hx => disturbed_append_of (h.2 hx)⟩

theorem raises_shell (hworld : ChildWorld env code) (op : ShellCall) :
    Program.Raises env Passed (shell op) :=
  .perform fun _ _ _ _ hans => ⟨hworld.foreign hans, fun hx => by simp [Event.raised?, hx]⟩

theorem raises_engage (hworld : ChildWorld env code) (limit : Rat) :
    Program.Raises env Passed (self.engage stdin limit) := by
  have hcall := raises_shell hworld
  have hkeep : ∀ (past : List (ShellEvent W)) e x, Passed past x → Passed (past ++ [e]) x :=
    fun _ e _ h => h.append e
  have hfeed : Program.Raises env Passed (feed stdin) := by
    cases stdin with
    | none => exact .ret ()
    | some text =>
      refine .finallyDo hkeep (.catching (hcall _) fun x past w hx => ?_) (hcall _)
      cases x with
      | osError => exact fun y hy => by cases hy
      | integration | timeoutExpired | other => exact fun y hy => by cases hy; exact hx
  have hdrain : Program.Raises env Passed self.drain := .bind (hcall _) fun _ => hcall _
  refine .bind (hcall _) fun _ => .bind (hcall _) fun _ => .finallyDo hkeep
    (.catching (.bind hfeed fun _ => .bind (hcall _) fun _ => .ret false) fun x past w hx => ?_)
    hdrain
  cases x with
  | timeoutExpired =>
    exact (Program.Raises.bind (hcall _) fun _ => .bind (hcall _) fun _ => .ret true) past w
  | integration | osError | other => exact fun y hy => by cases hy; exact hx

theorem raises_exit (hworld : ChildWorld env code) (piped interrupted : Bool) :
    Program.Raises env Passed (exit piped interrupted) := by
  have hcall := raises_shell hworld
  refine .bind (hcall _) fun _ => .bind (hcall _) fun _ => ?_
  cases interrupted with
  | true => exact hcall _
  | false =>
    refine .finallyDo (fun _ e _ h => h.append e) ?_ (.bind (hcall _) fun _ => .ret ())
    cases piped with
    | false => exact .ret ()
    | true => exact hcall _

theorem raises_attend (hworld : ChildWorld env code) (limit : Rat) :
    Program.Raises env Passed (self.attend stdin limit) :=
  .leaving (fun _ e _ h => h.append e) (raises_engage hworld limit) fun _ => raises_exit hworld _ _

theorem guarded_engage (hworld : ChildWorld env code) (hcounts : Counts false past) :
    (self.engage stdin (timeout.getD self.timeout)).Guarded env
      (self.Permitted toStr lower command stdin timeout code) (Known code) past w := by
  have hfailed : ∀ {past : List (ShellEvent W)} {v w : W} {x : ShellRaised} {reader : PipeReader},
      Counts false (past ++ [⟨v, .start reader, .error x, w⟩]) →
      env.answers v (.start reader) (.error x) w →
      Known code (.error x) (past ++ [⟨v, .start reader, .error x, w⟩]) w :=
    fun hcounts hans => ⟨false, hcounts, settled_of_error hworld rfl hans, nofun⟩
  refine .bind (.perform fun v answer w _ hans => ⟨rfl, ?_⟩)
  have hcounts := hcounts.call hworld (by simp) (by simp) hans
  cases answer with
  | error => exact hfailed hcounts hans
  | ok =>
    refine .bind (.perform fun v answer w _ hans => ⟨rfl, ?_⟩)
    have hcounts := hcounts.call hworld (by simp) (by simp) hans
    cases answer with
    | error => exact hfailed hcounts hans
    | ok => exact guarded_converse hworld hcounts

theorem guarded_attend (hworld : ChildWorld env code) (hcounts : Counts false past) :
    (self.attend stdin (timeout.getD self.timeout)).Guarded env
      (self.Permitted toStr lower command stdin timeout code) (Attended code) past w := by
  refine .leaving (((guarded_engage hworld hcounts).and (raises_engage hworld _ past w)).mono
    fun outcome past w h => ?_)
  obtain ⟨⟨b, hcounts, hsettled, hout⟩, hraises⟩ := h
  have hdisturbed : interrupted outcome = true → disturbed past = true := by
    cases outcome with
    | ok => exact nofun
    | error x => exact (hraises x rfl).2
  refine (guarded_exit hworld hcounts hsettled hdisturbed).mono fun last past w h => ?_
  obtain ⟨hcounts, hreaped, hleft⟩ := h
  cases last with
  | ok =>
    refine ⟨hleft.imp_right (.imp_right And.right), b, hcounts, fun b' hb' => ⟨hout b' hb', ?_⟩⟩
    subst hb'
    exact (hreaped rfl).resolve_right nofun
  | error => exact ⟨hleft.imp_right fun h => .inl (h.resolve_right nofun), b, hcounts, nofun⟩

/-- A reader shows no more than its limit. -/
theorem length_text_le (hworld : ChildWorld env code) {reader : PipeReader} {r : BoundedReader}
    (hans : env.answers v (.look reader) (.ok r) w) : (r.text.length : Int) ≤ reader.limit := by
  obtain ⟨steps, hsteps⟩ := hworld.looked hans
  have hfollows := BoundedReader.follows_of_steps reader.limit_pos hsteps
  have hpos := reader.limit_pos
  rw [← String.length_toList, hfollows.holds.text, hfollows.limit_eq, List.length_take]
  omega

/-- What `run` tells of a child that it has waited for. -/
def Told (self : ShellRunner) (argv : List String) (check : Bool) (code : W → Option Int) (w : W) :
    Except ShellRaised CommandResult → Prop
  | .ok result => result.command = argv ∧ code w = some result.returncode
      ∧ (check = true → result.returncode = 0)
      ∧ (result.stdout.length : Int) ≤ self.maxOutput
      ∧ (result.stderr.length : Int) ≤ self.maxOutput
  | .error (.integration e) => ∃ c detail, e.message = .failed c detail ∧ code w = some c ∧ c ≠ 0
      ∧ check = true
  | .error _ => True

theorem told_of_foreign {argv : List String} {check : Bool} {x : ShellRaised}
    (hworld : ChildWorld env code) (hans : env.answers v op (.error x) w) :
    Told self argv check code w (.error x) := by
  have hx := hworld.foreign hans
  cases x with
  | integration => cases hx
  | timeoutExpired | osError | other => trivial

theorem guarded_collect (hworld : ChildWorld env code) (hcounts : Counts false past) {c : Int}
    (hcode : code w = some c) (argv : List String) (check : Bool) :
    (self.collect argv check).Guarded env
      (self.Permitted toStr lower command stdin timeout code)
      (fun outcome past w => Counts false past ∧ (code w).isSome = true
        ∧ Told self argv check code w outcome) past w := by
  -- once it has exited, a child stays so, with its return code
  have hkept : ∀ {w v w' : W} {op : ShellCall} {answer : Except ShellRaised op.Result},
      code w = some c → env.interferes w v → env.answers v op answer w' → code w' = some c :=
    fun hcode hint hans => hworld.kept hans (hworld.kept_meanwhile hint hcode)
  refine .bind (.perform fun v answer w hint hans => ⟨rfl, ?_⟩)
  have hcode := hkept hcode hint hans
  have hcounts := hcounts.call hworld (by simp) (by simp) hans
  cases answer with
  | error => exact ⟨hcounts, by simp [hcode], told_of_foreign hworld hans⟩
  | ok stdout =>
    have hstdout := length_text_le hworld hans
    refine .bind (.perform fun v answer w hint hans => ⟨rfl, ?_⟩)
    have hcode := hkept hcode hint hans
    have hcounts := hcounts.call hworld (by simp) (by simp) hans
    cases answer with
    | error => exact ⟨hcounts, by simp [hcode], told_of_foreign hworld hans⟩
    | ok stderr =>
      have hstderr := length_text_le hworld hans
      refine .bind (.perform fun v answer w hint hans => ⟨trivial, ?_⟩)
      have hsome := hkept hcode hint hans
      have hcounts := hcounts.call hworld (by simp) (by simp) hans
      cases answer with
      | error => exact ⟨hcounts, by simp [hsome], told_of_foreign hworld hans⟩
      | ok returncode =>
        have hreturncode : code w = some returncode := hworld.kept hans (hworld.returncode hans)
        refine .of_done ⟨hcounts, by simp [hsome], ?_⟩
        rcases self.judge_cases check { command := argv, returncode, stdout := stdout.text
                                        stderr := stderr.text } with ⟨hok, hzero⟩ | ⟨herr, h⟩
        · rw [hok]
          exact ⟨rfl, hreturncode, hzero, hstdout, hstderr⟩
        · rw [herr]
          exact ⟨_, _, rfl, hreturncode, h.2, h.1⟩

end Account

/-! ### The results -/

section Results

variable (self : ShellRunner) {Object : Type} (toStr : Object → String) (lower : String → String)
  (command : Command Object) (stdin : Option String) (timeout : Option Rat) (check : Bool)
  (code : W → Option Int)

/-- What `run` gives back is so. -/
def Reported (es : List (ShellEvent W)) (w : W) : Except ShellRaised CommandResult → Prop
  | .ok result => killed es = false ∧ self.resolve lower toStr command = .ok result.command
      ∧ code w = some result.returncode ∧ (check = true → result.returncode = 0)
      ∧ (result.stdout.length : Int) ≤ self.maxOutput
      ∧ (result.stderr.length : Int) ≤ self.maxOutput
  | .error (.integration e) => match e.message with
    | .refused why => es = [] ∧ ∃ e, self.resolve lower toStr command = .error e ∧ e.message = why
    | .cannotRun .. => ¬Spawned es
    | .timedOut limit _ => killed es = true ∧ limit = timeout.getD self.timeout
        ∧ (code w).isSome = true
    | .failed c _ => killed es = false ∧ code w = some c ∧ c ≠ 0 ∧ check = true
  | .error _ => True

variable {self toStr lower command stdin timeout check code}

theorem reported_of_foreign {es : List (ShellEvent W)} {w : W} {x : ShellRaised}
    (h : x.isForeign = true) :
    Reported self toStr lower command timeout check code es w (.error x) := by
  cases x with
  | integration => cases h
  | timeoutExpired | osError | other => trivial

theorem guarded_oversee (hworld : ChildWorld env code) {argv : List String}
    (hargv : self.resolve lower toStr command = .ok argv) {past : List (ShellEvent W)} {w : W}
    (hcounts : Counts false past) :
    (self.oversee argv stdin (timeout.getD self.timeout) check).Guarded env
      (self.Permitted toStr lower command stdin timeout code)
      (fun outcome past w => killed past = expired past
        ∧ ((code w).isSome = true ∨ Lost past ∨ interrupted outcome = true)
        ∧ Reported self toStr lower command timeout check code past w outcome) past w := by
  refine .bind (((guarded_attend hworld hcounts).and (raises_attend hworld _ past w)).mono
    fun outcome past w h => ?_)
  obtain ⟨⟨hreaped, b, hcounts, hout⟩, hraises⟩ := h
  have hsame : killed past = expired past := hcounts.1.trans hcounts.2.symm
  cases outcome with
  | error x => exact ⟨hsame, hreaped, reported_of_foreign (hraises x rfl).1⟩
  | ok timedOut =>
    obtain ⟨rfl, hsome⟩ := hout timedOut rfl
    cases timedOut with
    | true => exact .throw ⟨hsame, .inl hsome, hcounts.1, rfl, hsome⟩
    | false =>
      obtain ⟨c, hcode⟩ := Option.isSome_iff_exists.mp hsome
      refine (guarded_collect hworld hcounts hcode argv check).mono fun outcome past w h => ?_
      obtain ⟨hcounts, hsome, htold⟩ := h
      refine ⟨hcounts.1.trans hcounts.2.symm, .inl hsome, ?_⟩
      cases outcome with
      | ok result =>
        obtain ⟨rfl, htold⟩ := htold
        exact ⟨hcounts.1, hargv, htold⟩
      | error x =>
        cases x with
        | timeoutExpired | osError | other => trivial
        | integration e =>
          obtain ⟨c, detail, hmessage, hcode, hne, hcheck⟩ := htold
          simp only [Reported, hmessage]
          exact ⟨hcounts.1, hcode, hne, hcheck⟩

theorem guarded_run (hworld : ChildWorld env code) (w : W) :
    (self.run toStr lower command stdin timeout check).Guarded env
      (self.Permitted toStr lower command stdin timeout code)
      (fun outcome past w => killed past = expired past
        ∧ (Spawned past → (code w).isSome = true ∨ Lost past ∨ interrupted outcome = true)
        ∧ Reported self toStr lower command timeout check code past w outcome) [] w := by
  cases hargv : self.resolve lower toStr command with
  | error e =>
    refine .bind ?_
    simp only [resolved, hargv, Except.mapError]
    exact .throw ⟨rfl, (fun ⟨e, he, _⟩ => by cases he), rfl, e, hargv, rfl⟩
  | ok argv =>
    refine .bind ?_
    simp only [resolved, hargv, Except.mapError]
    refine .ret (.bind (.catching (.perform fun v answer w _ hans =>
      ⟨⟨rfl, hargv, rfl, rfl, rfl⟩, ?_⟩)))
    cases answer with
    | ok =>
      refine (guarded_oversee hworld hargv ⟨rfl, rfl⟩).mono fun outcome past w h => ?_
      exact ⟨h.1, fun _ => h.2.1, h.2.2⟩
    | error x =>
      have hnot : ¬Spawned
          ([] ++ [⟨v, .popen argv stdin.isSome self.cwd self.env, .error x, w⟩]) := by
        rintro ⟨e, he, -, hraised⟩
        obtain rfl := List.mem_singleton.mp he
        cases hraised
      have hne := ne_timeoutExpired hworld (by simp) hans
      have hcounts : Counts false
          ([] ++ [⟨v, .popen argv stdin.isSome self.cwd self.env, .error x, w⟩]) :=
        Counts.call hworld ⟨rfl, rfl⟩ (by simp) (by simp) hans
      have hsame := hcounts.1.trans hcounts.2.symm
      cases x with
      | osError text => exact .throw ⟨hsame, fun h => absurd h hnot, hnot⟩
      | integration | timeoutExpired | other =>
        exact .throw ⟨hsame, fun h => absurd h hnot, reported_of_foreign (hworld.foreign hans)⟩

/-- **Every call of `run` is in its place**, in every execution up to any point. -/
theorem run_calls (hworld : ChildWorld env code) {w u : W} {past rest : List (ShellEvent W)}
    {e : ShellEvent W} {p : ShellProg CommandResult}
    (hexec : Program.Exec env (self.run toStr lower command stdin timeout check) w
      (past ++ e :: rest) p u) :
    self.Permitted toStr lower command stdin timeout code past e := by
  have haccepted := ((guarded_run hworld w).sound hexec).1
  simpa using permits_of_accepted haccepted

/-- **`run` accounts for its child.** -/
theorem run_accounts_for_child (hworld : ChildWorld env code) {w u : W} {es : List (ShellEvent W)}
    {outcome : Except ShellRaised CommandResult}
    (hexec : Program.Exec env (self.run toStr lower command stdin timeout check) w es
      (.done outcome) u) :
    killed es = expired es
      ∧ (Spawned es → (code u).isSome = true ∨ Lost es ∨ interrupted outcome = true)
      ∧ Reported self toStr lower command timeout check code es u outcome := by
  simpa using (guarded_run hworld w).outcome hexec

/-- **What escapes**: `run` raises an exception that is not its own if and only if
the last call that failed raised one that it does not handle there. -/
theorem run_raises_iff (hwaits : OnlyWaitsExpire env) {w u : W} {es : List (ShellEvent W)}
    {outcome : Except ShellRaised CommandResult}
    (hexec : Program.Exec env (self.run toStr lower command stdin timeout check) w es
      (.done outcome) u) :
    (∃ x, outcome = .error x ∧ x.isForeign = true)
      ↔ ∃ op x, lastFailure es = some (op, x) ∧ uncaught op x = true := by
  have hspoiled := (self.tracks_run hwaits [] w rfl).outcome hexec
  rw [List.nil_append] at hspoiled
  rw [show (∃ op x, lastFailure es = some (op, x) ∧ uncaught op x = true)
    ↔ spoiled uncaught es = true by simp [spoiled, Option.any_eq_true], hspoiled]
  cases outcome with
  | ok => simp [raises]
  | error x => simp [raises]

end Results

end ShellRunner

/-! ## Two children -/

/-- How a child behaves: it sleeps until it is killed, or it exits at once, with
its standard input unread. -/
inductive ChildScript where
  | sleeps
  | exits
  deriving DecidableEq

/-- What the calls are answered, with the status of the child before and after. -/
def ChildScript.reply (script : ChildScript) (status : Option Int) :
    (op : ShellCall) → Except ShellRaised op.Result × Option Int
  | .wait (some _) =>
    match script, status with
    | .sleeps, none => (.error .timeoutExpired, none)
    | _, _ => (.ok (status.getD 0), some (status.getD 0))
  | .wait none => (.ok (status.getD (-9)), some (status.getD (-9)))
  | .close .stdin =>
    match script with
    | .sleeps => (.ok (), status)
    | .exits => (.error (.osError "[Errno 32] Broken pipe"), status)
  | .returncode =>
    match status with
    | some c => (.ok c, status)
    | none => (.error (.other "AttributeError" "returncode"), status)
  | .look reader => (.ok (.start reader.limit reader.limit_pos), status)
  | .popen .. | .start _ | .write _ | .close .stdout | .close .stderr | .linger _ | .kill
  | .join .. => (.ok (), status)

/-- The child is alone with the driver. -/
def ChildScript.world (script : ChildScript) :
    Surroundings (Option Int) ShellCall ShellCall.Result ShellRaised where
  answers v op answer w := script.reply v op = (answer, w)
  interferes v w := w = v

theorem ChildScript.reply_known (script : ChildScript) (c : Int) (op : ShellCall) :
    (script.reply (some c) op).2 = some c := by
  cases op with
  | wait timeout => cases timeout <;> cases script <;> rfl
  | close pipe => cases pipe <;> cases script <;> rfl
  | popen | start | write | linger | kill | join | look | returncode => rfl

/-- Nothing is raised but the three exceptions of `reply`. -/
theorem ChildScript.reply_raises {script : ChildScript} {status after : Option Int} {op : ShellCall}
    {x : ShellRaised} (h : script.reply status op = (.error x, after)) :
    x.isForeign = true ∧ (x = .timeoutExpired → ∃ limit, op = .wait (some limit)) := by
  cases op with
  | popen | start | write | linger | kill | join | look => cases h
  | wait timeout =>
    cases timeout with
    | none => cases h
    | some limit =>
      cases script with
      | exits => cases h
      | sleeps =>
        cases status with
        | some => cases h
        | none =>
          cases h
          exact ⟨rfl, fun _ => ⟨limit, rfl⟩⟩
  | close pipe =>
    cases pipe with
    | stdout | stderr => cases h
    | stdin =>
      cases script with
      | sleeps => cases h
      | exits =>
        cases h
        exact ⟨rfl, nofun⟩
  | returncode =>
    cases status with
    | some => cases h
    | none =>
      cases h
      exact ⟨rfl, nofun⟩

theorem ChildScript.childWorld (script : ChildScript) : ChildWorld script.world id where
  kept_meanwhile hint hcode := hint ▸ hcode
  kept {v op answer w c} hans hcode := by
    obtain rfl : v = some c := hcode
    exact (congrArg Prod.snd hans).symm.trans (script.reply_known c op)
  waited {v timeout c w} hans := by
    cases timeout with
    | none => cases hans; rfl
    | some limit => cases script <;> cases v <;> cases hans <;> rfl
  returncode {v c w} hans := by
    cases v <;> cases hans
    rfl
  expires _ _ _ hans := (reply_raises hans).2 rfl
  foreign hans := (reply_raises hans).1
  looked hans := by
    cases hans
    exact ⟨[], .nil⟩

/-- `tool`, to be run for a second at most. -/
abbrev runTool (stdin : Option String) : ShellProg CommandResult :=
  (toolRunner.withEnv "/bin:/usr/bin" ':').run Empty.elim twoTools.lower
    (.vector [.text "tool"]) stdin (some 1)

theorem sleeps_run : ∃ es u, Program.Exec ChildScript.sleeps.world (runTool none) none es
    (.done (.error ((toolRunner.withEnv "/bin:/usr/bin" ':').failRun
      (.timedOut 1 "/opt/b/tool")))) u :=
  ⟨_, _, .call rfl rfl (.call rfl rfl (.call rfl rfl (.call rfl rfl (.call rfl rfl
    (.call rfl rfl (.call rfl rfl (.call rfl rfl (.call rfl rfl (.call rfl rfl (.call rfl rfl
      .stop))))))))))⟩

/-- The child that sleeps is killed and waited for. -/
theorem run_accounts_for_child_sleeps : ∃ es u outcome,
    Program.Exec ChildScript.sleeps.world (runTool none) none es (.done outcome) u
      ∧ killed es = true ∧ expired es = true ∧ u.isSome = true := by
  obtain ⟨es, u, hexec⟩ := sleeps_run
  obtain ⟨hsame, -, hkilled, -, hsome⟩ :=
    ShellRunner.run_accounts_for_child ChildScript.sleeps.childWorld hexec
  exact ⟨es, u, _, hexec, hkilled, hsame ▸ hkilled, hsome⟩

/-- It is killed when the timeout has just expired. -/
theorem run_calls_sleeps : ∃ past e rest p u,
    Program.Exec ChildScript.sleeps.world (runTool none) none (past ++ e :: rest) p u
      ∧ e.op = .kill ∧ past.getLast?.bind Event.raised? = some .timeoutExpired := by
  obtain ⟨es, u, hexec⟩ : ∃ es u, Program.Exec ChildScript.sleeps.world (runTool none) none
      ([⟨none, .popen ["/opt/b/tool"] false none (defaultEnv "/bin:/usr/bin" ':'), .ok (), none⟩,
        ⟨none, .start ((toolRunner.withEnv "/bin:/usr/bin" ':').reader .stdout), .ok (), none⟩,
        ⟨none, .start ((toolRunner.withEnv "/bin:/usr/bin" ':').reader .stderr), .ok (), none⟩,
        ⟨none, .wait (some 1), .error .timeoutExpired, none⟩] ++ ⟨none, .kill, .ok (), none⟩ :: [])
      es u :=
    ⟨_, _, .call rfl rfl (.call rfl rfl (.call rfl rfl (.call rfl rfl (.call rfl rfl .stop))))⟩
  exact ⟨_, _, _, es, u, hexec, rfl,
    ShellRunner.run_calls ChildScript.sleeps.childWorld hexec⟩

/-- **The exception of closing standard input escapes**, of a child that exits
before it has read it. -/
theorem run_raises_iff_exits : ∃ es x u,
    Program.Exec ChildScript.exits.world (runTool (some "text")) none es (.done (.error x)) u
      ∧ x.isForeign = true
      ∧ ∃ op x, lastFailure es = some (op, x) ∧ uncaught op x = true := by
  obtain ⟨es, u, hexec⟩ : ∃ es u, Program.Exec ChildScript.exits.world (runTool (some "text")) none
      es (.done (.error (.osError "[Errno 32] Broken pipe"))) u :=
    ⟨_, _, .call rfl rfl (.call rfl rfl (.call rfl rfl (.call rfl rfl (.call rfl rfl
      (.call rfl rfl (.call rfl rfl (.call rfl rfl (.call rfl rfl (.call rfl rfl (.call rfl rfl
        .stop))))))))))⟩
  exact ⟨es, _, u, hexec, rfl, (ShellRunner.run_raises_iff ChildScript.exits.childWorld.expires
    hexec).mp ⟨_, rfl, rfl⟩⟩

end TitoOS
