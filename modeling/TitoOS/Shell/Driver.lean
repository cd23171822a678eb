import TitoOS.Allowlist
import TitoOS.Files.Path
import TitoOS.Lib.Dict

/-!
# The shell driver

The allowlist of `ShellIntegration` (`shell.py`): the constructor finds an
executable for each command it is given, and `_resolve` looks up the executable
of an argument vector. What the constructor asks the system is a parameter
(`ShellHost`).

The executables are kept under the names in lower case, so that of two commands
which differ in case only the later one in sorted order is kept. The driver runs
the program that was named exactly if such commands have one executable
(`runs_named_iff`).
-/

namespace TitoOS

/-- What is wrong, in an `IntegrationError` of the driver. -/
inductive ShellFailure where
  /-- `command must be a list of arguments, not a string; there is no shell to
  split it` -/
  | notAList
  /-- `command must not be empty` -/
  | empty
  /-- `command must be a bare program name, not a path: {program!r}` -/
  | notBare (program : String)
  /-- `command {program!r} is not in the allowlist ({', '.join(allowed)})` -/
  | notAllowed (program : String) (allowed : List String)
  deriving DecidableEq

/-- `IntegrationError`. -/
structure ShellIntegrationError where
  message : ShellFailure
  integration : String
  operation : String
  deriving DecidableEq

/-- A `ValueError` of the constructor. -/
inductive ShellValueError where
  /-- `integration name must be a non-empty string` -/
  | emptyName
  /-- what `normalize_allowlist` raises -/
  | noEntries (text : String)
  /-- `allowed_commands entries must not be blank` -/
  | blankEntry
  /-- `allowed_commands entries must be bare command names, not paths: {name!r}` -/
  | notBareEntry (name : String)
  /-- `allowed command not found on PATH: {name!r}` -/
  | notFound (name : String)
  /-- `timeout must be positive` -/
  | timeout
  /-- `max_output must be positive` -/
  | maxOutput
  /-- `cwd is not an existing directory: {cwd}` -/
  | cwd (path : String)
  deriving DecidableEq

/-- What the constructor asks the system. -/
structure ShellHost where
  /-- `shutil.which(name)` -/
  which : String → Option String
  /-- `str(Path(executable).resolve())` -/
  resolved : String → String
  /-- `Path(cwd).expanduser().resolve()` -/
  directory : String → String
  isDir : String → Bool
  /-- `str.lower` -/
  lower : String → String

/-- The absolute executable of a command. -/
def ShellHost.executable (host : ShellHost) (name : String) : Option String :=
  (host.which name).map host.resolved

/-- `name == Path(name).name` and there is no separator in it. -/
def isBareName (name : String) : Bool :=
  name = (PurePath.parse name).name && '/' ∉ name.toList && '\\' ∉ name.toList

/-- One round of the loop of `_resolve_allowlist`. -/
def resolveEntry (host : ShellHost) (resolved : Dict String String) (name : String) :
    Except ShellValueError (Dict String String) :=
  if name = "" then .error .blankEntry
  else if !isBareName name then .error (.notBareEntry name)
  else
    match host.executable name with
    | none => .error (.notFound name)
    | some executable => .ok (resolved.set (host.lower name) executable)

/-- `_resolve_allowlist`. -/
def resolveAllowlist (host : ShellHost) (names : List String) :
    Except ShellValueError (Dict String String) :=
  ((names.map Text.strip).mergeSort fun a b => decide (a ≤ b)).foldlM (resolveEntry host) ∅

/-- `ShellIntegration`. -/
structure ShellIntegration where
  name : String := "shell"
  name_ne : name ≠ "" := by decide
  /-- the normalized names -/
  allowedCommands : List String
  allowedCommands_ne : allowedCommands ≠ [] := by decide
  /-- `_executables` -/
  executables : Dict String String
  cwd : Option String := none
  timeout : Rat := 30
  timeout_pos : 0 < timeout := by decide
  maxOutput : Int := 1 <<< 20
  maxOutput_pos : 0 < maxOutput := by decide

/-- An argument: a string, or another object, of which `str` makes one. -/
inductive Argument (Object : Type) where
  | text (s : String)
  | object (o : Object)

/-- `str(part)`. -/
def Argument.str {Object : Type} (toStr : Object → String) : Argument Object → String
  | text s => s
  | object o => toStr o

/-- What `run` is called with: a `str` or `bytes`, or an argument vector. -/
inductive Command (Object : Type) where
  | line
  | vector (args : List (Argument Object))

namespace ShellIntegration

/-- The `cwd` of the constructor. -/
def checkedCwd (host : ShellHost) : Option String → Except ShellValueError (Option String)
  | none => .ok none
  | some cwd =>
    if host.isDir (host.directory cwd) then .ok (some (host.directory cwd))
    else .error (.cwd (host.directory cwd))

/-- The default of `max_output` passes the check of the constructor. -/
theorem default_maxOutput_pos : (0 : Int) < 1 <<< 20 := by decide

theorem timeout_pos_of_not_le {timeout : Rat} (h : ¬timeout ≤ 0) : 0 < timeout := Rat.not_le.mp h

theorem maxOutput_pos_of_not_le {maxOutput : Int} (h : ¬maxOutput ≤ 0) : 0 < maxOutput :=
  Int.not_le.mp h

/-- `ShellIntegration(allowed_commands, ...)`. -/
def init (host : ShellHost) (allowedCommands : List String) (name : Option String := none)
    (cwd : Option String := none) (timeout : Rat := 30) (maxOutput : Int := 1 <<< 20) :
    Except ShellValueError ShellIntegration :=
  let commandNames := allowedCommands.map Text.strip
  if hname : name.getD "shell" = "" then .error .emptyName
  else
    match hallowed : normalizeAllowlist host.lower commandNames "allowed_commands" with
    | .error text => .error (.noEntries text)
    | .ok allowed =>
      match resolveAllowlist host commandNames with
      | .error exc => .error exc
      | .ok executables =>
        if htimeout : timeout ≤ 0 then .error .timeout
        else if hmax : maxOutput ≤ 0 then .error .maxOutput
        else
          match checkedCwd host cwd with
          | .error exc => .error exc
          | .ok cwd => .ok
              { name := name.getD "shell", name_ne := hname
                allowedCommands := allowed
                allowedCommands_ne := normalizeAllowlist_ne_nil hallowed
                executables, cwd
                timeout, timeout_pos := timeout_pos_of_not_le htimeout
                maxOutput, maxOutput_pos := maxOutput_pos_of_not_le hmax }

variable (self : ShellIntegration) (lower : String → String)

/-- `_fail`. -/
def fail (message : ShellFailure) (operation : String) : ShellIntegrationError :=
  { message, integration := self.name, operation }

/-- `_resolve`. -/
def resolve {Object : Type} (toStr : Object → String) :
    Command Object → Except ShellIntegrationError (List String)
  | .line => .error (self.fail .notAList "run")
  | .vector args =>
    match args.map (Argument.str toStr) with
    | [] => .error (self.fail .empty "run")
    | program :: rest =>
      if !isBareName program then .error (self.fail (.notBare program) "run")
      else
        match self.executables.get? (lower program) with
        | none => .error (self.fail
            (.notAllowed program (self.allowedCommands.mergeSort fun a b => decide (a ≤ b))) "run")
        | some executable => .ok (executable :: rest)

end ShellIntegration

/-! ## The resolved allowlist -/

section Resolving

variable {host : ShellHost} {names : List String} {name : String}
  {before resolved : Dict String String}

/-- What the loop makes of the executables it has, with the names that are left. -/
structure ResolvedFrom (host : ShellHost) (before : Dict String String) (names : List String)
    (resolved : Dict String String) : Prop where
  bare : ∀ name ∈ names, isBareName name = true
  found : ∀ name ∈ names, ∃ executable, host.executable name = some executable
  /-- An executable is that of a name with its key. -/
  source : ∀ key executable, resolved.get? key = some executable →
    before.get? key = some executable
      ∨ ∃ name ∈ names, host.lower name = key ∧ host.executable name = some executable
  kept : ∀ key executable, before.get? key = some executable →
    ∃ executable', resolved.get? key = some executable'
  /-- Every name has an executable under its key. -/
  keyed : ∀ name ∈ names, ∃ executable, resolved.get? (host.lower name) = some executable

theorem resolveEntry_ok (h : resolveEntry host before name = .ok resolved) :
    isBareName name = true ∧ ∃ executable, host.executable name = some executable
      ∧ resolved = before.set (host.lower name) executable := by
  unfold resolveEntry at h
  split at h
  · cases h
  split at h
  · cases h
  rename_i hbare
  split at h
  · cases h
  rename_i executable hexecutable
  exact ⟨by simpa using hbare, executable, hexecutable, (Except.ok.inj h).symm⟩

/-- The loop of `_resolve_allowlist`. -/
theorem resolvedFrom_of_foldlM (h : names.foldlM (resolveEntry host) before = .ok resolved) :
    ResolvedFrom host before names resolved := by
  induction names generalizing before with
  | nil =>
    obtain rfl := Except.ok.inj h
    exact ⟨nofun, nofun, fun _ _ hget => .inl hget, fun _ executable hget => ⟨executable, hget⟩,
      nofun⟩
  | cons name rest ih =>
    rw [List.foldlM_cons] at h
    cases hentry : resolveEntry host before name with
    | error exc =>
      rw [hentry] at h
      cases h
    | ok next =>
      rw [hentry] at h
      obtain ⟨hbare, executable, hexecutable, rfl⟩ := resolveEntry_ok hentry
      have hrest := ih h
      refine ⟨?_, ?_, fun key exe hget => ?_, fun key exe hget => ?_, ?_⟩
      · exact List.forall_mem_cons.mpr ⟨hbare, hrest.bare⟩
      · exact List.forall_mem_cons.mpr ⟨⟨executable, hexecutable⟩, hrest.found⟩
      · rcases hrest.source key exe hget with hbefore | ⟨n, hn, hkey, hexe⟩
        · rw [Dict.get?_set] at hbefore
          split at hbefore
          · rename_i hkey
            obtain rfl := Option.some.inj hbefore
            exact .inr ⟨name, List.mem_cons_self, hkey.symm, hexecutable⟩
          · exact .inl hbefore
        · exact .inr ⟨n, List.mem_cons_of_mem _ hn, hkey, hexe⟩
      · by_cases hkey : key = host.lower name
        · subst hkey
          exact hrest.kept _ executable (Dict.get?_set_self ..)
        · exact hrest.kept key exe (by rw [Dict.get?_set_ne _ _ hkey]; exact hget)
      · exact List.forall_mem_cons.mpr
          ⟨hrest.kept _ executable (Dict.get?_set_self ..), hrest.keyed⟩

/-- **What `_resolve_allowlist` returns**, of entries that are stripped. -/
theorem resolvedFrom_of_resolveAllowlist {commands : List String}
    (h : resolveAllowlist host (commands.map Text.strip) = .ok resolved) :
    ResolvedFrom host ∅ (commands.map Text.strip) resolved := by
  have hstripped : (commands.map Text.strip).map Text.strip = commands.map Text.strip := by
    rw [List.map_map]
    exact List.map_congr_left fun command _ => Text.strip_strip command
  unfold resolveAllowlist at h
  rw [hstripped] at h
  obtain ⟨hbare, hfound, hsource, hkept, hkeyed⟩ := resolvedFrom_of_foldlM h
  simp only [List.mem_mergeSort] at hbare hfound hsource hkeyed
  exact ⟨hbare, hfound, hsource, hkept, hkeyed⟩

end Resolving

namespace ShellIntegration

variable {self : ShellIntegration} {host : ShellHost} {commands : List String}
  {name cwd : Option String} {timeout : Rat} {maxOutput : Int} {Object : Type}
  {toStr : Object → String}

/-- The executables of the driver are those its constructor has resolved. -/
theorem resolvedFrom_of_init
    (hinit : init host commands name cwd timeout maxOutput = .ok self) :
    ResolvedFrom host ∅ (commands.map Text.strip) self.executables := by
  unfold init at hinit
  simp only at hinit
  split at hinit
  · cases hinit
  split at hinit
  · cases hinit
  split at hinit
  · cases hinit
  rename_i executables hexecutables
  split at hinit
  · cases hinit
  split at hinit
  · cases hinit
  split at hinit
  · cases hinit
  obtain rfl := Except.ok.inj hinit
  exact resolvedFrom_of_resolveAllowlist hexecutables

/-- What `_resolve` returns is the executable under the key of the program, and
the other arguments. -/
theorem resolve_eq_ok_iff {args : List (Argument Object)} {argv : List String} :
    self.resolve host.lower toStr (.vector args) = .ok argv
      ↔ ∃ program rest executable, args.map (Argument.str toStr) = program :: rest
        ∧ isBareName program = true
        ∧ self.executables.get? (host.lower program) = some executable
        ∧ argv = executable :: rest := by
  unfold resolve
  simp only
  generalize args.map (Argument.str toStr) = texts
  cases texts with
  | nil => simp
  | cons program rest =>
    simp only
    cases hbare : isBareName program with
    | false => simp [hbare]
    | true =>
      cases hget : self.executables.get? (host.lower program) with
      | none => simp [hget]
      | some executable =>
        constructor
        · rintro ⟨⟩
          exact ⟨program, rest, executable, rfl, hbare, hget, rfl⟩
        · rintro ⟨program', rest', executable', ⟨⟩, -, hget', rfl⟩
          obtain rfl := Option.some.inj (hget.symm.trans hget')
          rfl

end ShellIntegration

/-! ## The program that was named -/

/-- What `_resolve` does with an argument vector, for a driver whose allowlist has
these entries. -/
structure RunsNamed (driver : ShellIntegration) (host : ShellHost) (entries : List String)
    {Object : Type} (toStr : Object → String) (args : List (Argument Object)) : Prop where
  /-- It returns the executable of an entry and the other arguments as strings. -/
  resolved : ∀ argv, driver.resolve host.lower toStr (.vector args) = .ok argv →
    ∃ e ∈ entries, ∃ executable, host.executable e = some executable
      ∧ argv = executable :: (args.map (Argument.str toStr)).tail
  /-- For a program that is an entry, it is the executable of that very entry. -/
  named : ∀ program rest, args.map (Argument.str toStr) = program :: rest → program ∈ entries →
    ∃ executable, host.executable program = some executable
      ∧ driver.resolve host.lower toStr (.vector args) = .ok (executable :: rest)
  /-- A path, and a program that is no entry in any case, it refuses. -/
  refused : ∀ program rest, args.map (Argument.str toStr) = program :: rest →
    '/' ∈ program.toList ∨ '\\' ∈ program.toList
      ∨ (∀ e ∈ entries, host.lower e ≠ host.lower program) →
    ∃ exc, driver.resolve host.lower toStr (.vector args) = .error exc

namespace ShellIntegration

variable {self : ShellIntegration} {host : ShellHost} {commands : List String}
  {name cwd : Option String} {timeout : Rat} {maxOutput : Int} {Object : Type}
  {toStr : Object → String}

/-- Names that differ in case only have one executable. -/
def OneExecutable (host : ShellHost) (entries : List String) : Prop :=
  ∀ e ∈ entries, ∀ e' ∈ entries, host.lower e = host.lower e' →
    host.executable e = host.executable e'

/-- What is returned is the executable of an entry, and the other arguments. -/
theorem resolved_of_init (hinit : init host commands name cwd timeout maxOutput = .ok self)
    {args : List (Argument Object)} {argv : List String}
    (hargv : self.resolve host.lower toStr (.vector args) = .ok argv) :
    ∃ e ∈ commands.map Text.strip, ∃ executable, host.executable e = some executable
      ∧ argv = executable :: (args.map (Argument.str toStr)).tail := by
  obtain ⟨program, rest, executable, hargs, -, hget, rfl⟩ := resolve_eq_ok_iff.mp hargv
  rcases (resolvedFrom_of_init hinit).source _ _ hget with hnone | ⟨e, he, -, hexe⟩
  · cases hnone
  · exact ⟨e, he, executable, hexe, by rw [hargs, List.tail_cons]⟩

/-- A path, and a program that is no entry in any case, is refused. -/
theorem refused_of_init (hinit : init host commands name cwd timeout maxOutput = .ok self)
    {args : List (Argument Object)} {program : String} {rest : List String}
    (hargs : args.map (Argument.str toStr) = program :: rest)
    (hbad : '/' ∈ program.toList ∨ '\\' ∈ program.toList
      ∨ (∀ e ∈ commands.map Text.strip, host.lower e ≠ host.lower program)) :
    ∃ exc, self.resolve host.lower toStr (.vector args) = .error exc := by
  cases hresolve : self.resolve host.lower toStr (.vector args) with
  | error exc => exact ⟨exc, rfl⟩
  | ok argv =>
    exfalso
    obtain ⟨program', rest', executable, hargs', hname, hget, -⟩ := resolve_eq_ok_iff.mp hresolve
    obtain ⟨rfl, rfl⟩ := List.cons.inj (hargs.symm.trans hargs')
    simp only [isBareName, Bool.and_eq_true, decide_eq_true_eq] at hname
    rcases hbad with hslash | hbackslash | hunlisted
    · exact hname.1.2 hslash
    · exact hname.2 hbackslash
    · rcases (resolvedFrom_of_init hinit).source _ _ hget with hnone | ⟨e, he, hkey, -⟩
      · cases hnone
      · exact hunlisted e he hkey

/-- **The driver runs the program that was named**: for every allowlist that the
constructor accepts, and whatever `which` finds, all argument vectors are resolved
as they should be exactly if entries that differ in case only have one
executable. -/
theorem runs_named_iff (hinit : init host commands name cwd timeout maxOutput = .ok self) :
    (∀ args : List (Argument Object),
        RunsNamed self host (commands.map Text.strip) toStr args)
      ↔ OneExecutable host (commands.map Text.strip) := by
  have hresolved := resolvedFrom_of_init hinit
  constructor
  · intro hruns e he e' he' hkey
    obtain ⟨executable, hexe, hargv⟩ := (hruns [.text e]).named e [] rfl he
    obtain ⟨executable', hexe', hargv'⟩ := (hruns [.text e']).named e' [] rfl he'
    -- both programs have the same key, so what is found is the same
    obtain ⟨-, -, found, ⟨⟩, -, hget, heq⟩ := resolve_eq_ok_iff.mp hargv
    obtain ⟨-, -, found', ⟨⟩, -, hget', heq'⟩ := resolve_eq_ok_iff.mp hargv'
    change self.executables.get? (host.lower e) = some found at hget
    change self.executables.get? (host.lower e') = some found' at hget'
    rw [hkey, hget'] at hget
    obtain rfl := Option.some.inj hget
    rw [hexe, hexe', (List.cons.inj heq).1, (List.cons.inj heq').1]
  · intro hone args
    refine ⟨fun argv hargv => resolved_of_init hinit hargv, fun program rest hargs hmem => ?_,
      fun program rest hargs hbad => refused_of_init hinit hargs hbad⟩
    obtain ⟨executable, hget⟩ := hresolved.keyed program hmem
    rcases hresolved.source _ _ hget with hnone | ⟨e, he, hkey, hexe⟩
    · cases hnone
    · refine ⟨executable, ?_, ?_⟩
      · rw [← hone e he program hmem hkey]
        exact hexe
      · exact resolve_eq_ok_iff.mpr
          ⟨program, rest, executable, hargs, hresolved.bare program hmem, hget, rfl⟩

end ShellIntegration

/-! ## Two programs of one name -/

/-- A system with a program `"Tool"` and another one `"tool"`. -/
def twoTools : ShellHost where
  which
    | "Tool" => some "/opt/a/Tool"
    | "tool" => some "/opt/b/tool"
    | _ => none
  resolved executable := executable
  directory path := path
  isDir _ := true
  lower s := String.ofList (s.toList.map Char.toLower)

/-- The driver with both as entries. -/
def toolRunner : ShellIntegration where
  maxOutput_pos := ShellIntegration.default_maxOutput_pos
  allowedCommands := ["tool"]
  executables := Dict.ofList [("tool", "/opt/b/tool")]

theorem twoTools_resolved : resolveAllowlist twoTools (["Tool", "tool"].map Text.strip)
    = .ok (Dict.ofList [("tool", "/opt/b/tool")]) := by
  have hsorted : ((["Tool", "tool"].map Text.strip).map Text.strip).mergeSort
      (fun a b => decide (a ≤ b)) = ["Tool", "tool"] :=
    List.mergeSort_of_pairwise (by decide)
  unfold resolveAllowlist
  rw [hsorted]
  rfl

theorem twoTools_normalized : normalizeAllowlist twoTools.lower (["Tool", "tool"].map Text.strip)
    "allowed_commands" = .ok ["tool"] := by decide +kernel

theorem toolRunner_init : ShellIntegration.init twoTools ["Tool", "tool"] = .ok toolRunner := by
  unfold ShellIntegration.init
  simp only [twoTools_resolved]
  split
  · rename_i hname
    exact absurd hname (by decide)
  · split
    · rename_i hallowed
      cases twoTools_normalized.symm.trans hallowed
    · rename_i hallowed
      cases twoTools_normalized.symm.trans hallowed
      rfl

/-- **The wrong program runs**: `"Tool"` is an entry, and its executable is not
what is run. -/
theorem wrong_program_runs : ShellIntegration.init twoTools ["Tool", "tool"] = .ok toolRunner
    ∧ ¬ ∀ args : List (Argument Empty),
      RunsNamed toolRunner twoTools (["Tool", "tool"].map Text.strip) Empty.elim args := by
  refine ⟨toolRunner_init, fun hruns => ?_⟩
  obtain ⟨executable, hexe, hargv⟩ := (hruns [.text "Tool"]).named "Tool" [] rfl (by decide)
  obtain rfl : "/opt/a/Tool" = executable := Option.some.inj hexe
  exact absurd hargv (by decide)

theorem runs_named_iff_twoTools :
    (∀ args : List (Argument Empty),
        RunsNamed toolRunner twoTools (["Tool", "tool"].map Text.strip) Empty.elim args)
      ↔ ShellIntegration.OneExecutable twoTools (["Tool", "tool"].map Text.strip) :=
  ShellIntegration.runs_named_iff toolRunner_init

end TitoOS
