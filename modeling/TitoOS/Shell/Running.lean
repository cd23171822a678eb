import TitoOS.Lib.Program
import TitoOS.Lib.Text
import TitoOS.Shell.Driver
import TitoOS.Shell.Reader

/-!
# Running a command

`ShellIntegration.run` (`shell.py`), as a program that calls on `subprocess.Popen`,
on the child it gives and on the two threads that drain the child's pipes.
-/

namespace TitoOS

/-- What is wrong, in an `IntegrationError` of `run`. -/
inductive RunFailure where
  /-- a text of `_resolve` -/
  | refused (why : ShellFailure)
  /-- `cannot run {program!r}: {exc}` -/
  | cannotRun (program exc : String)
  /-- `command timed out after {limit}s: {line}` -/
  | timedOut (limit : Rat) (line : String)
  /-- `command failed with exit code {code}: {detail}` -/
  | failed (code : Int) (detail : String)
  deriving DecidableEq

/-- `IntegrationError`. -/
structure RunError where
  message : RunFailure
  integration : String
  operation : String
  deriving DecidableEq

/-- What the driver or the standard library raises: `subprocess.TimeoutExpired` is
no `OSError`, and what is neither is told by its class. -/
inductive ShellRaised where
  | integration (e : RunError)
  | timeoutExpired
  | osError (text : String)
  | other (cls text : String)
  deriving DecidableEq

/-- The driver did not raise it itself. -/
def ShellRaised.isForeign : ShellRaised → Bool
  | integration _ => false
  | _ => true

/-- It is a `KeyboardInterrupt`. -/
def ShellRaised.isInterrupt : ShellRaised → Bool
  | other cls _ => cls == "KeyboardInterrupt"
  | _ => false

/-- The pipes to a child. -/
inductive Pipe where
  | stdin
  | stdout
  | stderr
  deriving DecidableEq

/-- A reader as it is constructed: `_BoundedReader(stream, limit)`. -/
structure PipeReader where
  stream : Pipe
  limit : Int
  limit_pos : 0 < limit
  deriving DecidableEq

/-- The calls of `run`. -/
inductive ShellCall where
  /-- `subprocess.Popen(argv, ...)`; standard input is a pipe or `DEVNULL` -/
  | popen (argv : List String) (piped : Bool) (cwd : Option String) (env : Dict String String)
  /-- `reader.start()` -/
  | start (reader : PipeReader)
  /-- `process.stdin.write(text)` -/
  | write (text : String)
  /-- `close()` of a pipe -/
  | close (pipe : Pipe)
  /-- `process.wait(timeout)` -/
  | wait (timeout : Option Rat)
  /-- the end of `Popen.__exit__` after a `KeyboardInterrupt`: standard input is closed,
  whatever that raises, and the child is waited for a moment, unless an interrupted
  `wait` has done so -/
  | linger (piped : Bool)
  /-- `process.kill()` -/
  | kill
  /-- `reader.join(timeout)` -/
  | join (reader : PipeReader) (timeout : Rat)
  /-- a look at what the reader has, under its lock -/
  | look (reader : PipeReader)
  /-- `process.returncode` -/
  | returncode
  deriving DecidableEq

/-- What a call returns. -/
@[reducible] def ShellCall.Result : ShellCall → Type
  | wait _ | returncode => Int
  | look _ => BoundedReader
  | _ => Unit

/-- A program that makes these calls. -/
abbrev ShellProg := Program ShellCall ShellCall.Result ShellRaised

/-- One call. -/
abbrev shell (op : ShellCall) : ShellProg op.Result := Program.perform op

/-- `CommandResult`. -/
structure CommandResult where
  command : List String
  returncode : Int
  stdout : String
  stderr : String
  deriving DecidableEq

/-- `ok`. -/
def CommandResult.ok (result : CommandResult) : Bool := result.returncode = 0

/-- `_DRAIN_GRACE`. -/
def DRAIN_GRACE : Rat := 1

/-- `DEFAULT_ENV`, for what `os.defpath` and `os.pathsep` are. -/
def defaultEnv (defpath : String) (pathsep : Char) : Dict String String :=
  (∅ : Dict String String).set "PATH" ((String.singleton pathsep).intercalate
    (((defpath.toList.splitOn pathsep).map String.ofList).filter (· ≠ "")))

/-- `ShellIntegration`, with the environment its children get. -/
structure ShellRunner extends ShellIntegration where
  env : Dict String String

/-- The `env` of the constructor. -/
def ShellIntegration.withEnv (self : ShellIntegration) (defpath : String) (pathsep : Char)
    (env : Option (Dict String String) := none) : ShellRunner :=
  { self with env := env.getD (defaultEnv defpath pathsep) }

namespace ShellRunner

variable (self : ShellRunner)

/-- The `_fail` of `run`. -/
def failRun (message : RunFailure) : ShellRaised :=
  .integration { message, integration := self.name, operation := "run" }

/-- `_BoundedReader(process.stdout, self.max_output)`, or of `stderr`. -/
def reader (stream : Pipe) : PipeReader :=
  { stream, limit := self.maxOutput, limit_pos := self.maxOutput_pos }

/-- Write to the standard input of the child, and close it. -/
def feed : Option String → ShellProg Unit
  | none => pure ()
  | some text =>
    ((shell (.write text)).catching fun
      -- the child exited before reading it all
      | .osError _ => pure ()
      | x => Program.throw x).finallyDo (shell (.close .stdin))

/-- Wait for the readers. -/
def drain : ShellProg Unit := do
  shell (.join (self.reader .stdout) DRAIN_GRACE)
  shell (.join (self.reader .stderr) DRAIN_GRACE)

/-- Feed the child, and wait for it no longer than the limit: it did not expire. -/
def attempt (stdin : Option String) (limit : Rat) : ShellProg Bool := do
  feed stdin
  let _ ← shell (.wait (some limit))
  pure false

/-- Kill the child, and wait for it: the timeout has expired. -/
def terminate : ShellProg Bool := do
  shell .kill
  let _ ← shell (.wait none)
  pure true

/-- The block `try`. -/
def converse (stdin : Option String) (limit : Rat) : ShellProg Bool :=
  ((attempt stdin limit).catching fun
    | .timeoutExpired => terminate
    | x => Program.throw x).finallyDo self.drain

/-- `Popen.__exit__`; the child need not be done when it returns after a
`KeyboardInterrupt`. -/
def exit (piped interrupted : Bool) : ShellProg Unit := do
  shell (.close .stdout)
  shell (.close .stderr)
  if interrupted then
    shell (.linger piped)
  else
    (if piped then shell (.close .stdin) else pure ()).finallyDo do
      let _ ← shell (.wait none)
      pure ()

/-- What is left by a `KeyboardInterrupt`. -/
def interrupted {α : Type} : Except ShellRaised α → Bool
  | .ok _ => false
  | .error x => x.isInterrupt

/-- Start the readers, and go on: the timeout expired. -/
def engage (stdin : Option String) (limit : Rat) : ShellProg Bool := do
  shell (.start (self.reader .stdout))
  shell (.start (self.reader .stderr))
  self.converse stdin limit

/-- The block `with process`. -/
def attend (stdin : Option String) (limit : Rat) : ShellProg Bool :=
  (self.engage stdin limit).leaving fun outcome => exit stdin.isSome (interrupted outcome)

/-- What a failing command had to say. -/
def detail (result : CommandResult) : String :=
  let stripped := Text.strip result.stderr
  if stripped = "" then " ".intercalate result.command else stripped

/-- With `check` a failure is raised. -/
def judge (check : Bool) (result : CommandResult) : Except ShellRaised CommandResult :=
  if check && !result.ok then
    .error (self.failRun (.failed result.returncode (detail result)))
  else .ok result

/-- The end of `run`: what the child left. -/
def collect (argv : List String) (check : Bool) : ShellProg CommandResult := do
  let stdout ← shell (.look (self.reader .stdout))
  let stderr ← shell (.look (self.reader .stderr))
  let returncode ← shell .returncode
  Program.done (self.judge check
    { command := argv, returncode, stdout := stdout.text, stderr := stderr.text })

/-- `run`, once the child has been started. -/
def oversee (argv : List String) (stdin : Option String) (limit : Rat) (check : Bool) :
    ShellProg CommandResult := do
  let timedOut ← self.attend stdin limit
  if timedOut then
    Program.throw (self.failRun (.timedOut limit (" ".intercalate argv)))
  else self.collect argv check

/-- `_resolve`, with its exceptions among those of `run`. -/
def resolved {Object : Type} (toStr : Object → String) (lower : String → String)
    (command : Command Object) : Except ShellRaised (List String) :=
  (self.resolve lower toStr command).mapError fun e =>
    .integration { message := .refused e.message, integration := e.integration
                   operation := e.operation }

/-- `run`. -/
def run {Object : Type} (toStr : Object → String) (lower : String → String)
    (command : Command Object) (stdin : Option String := none) (timeout : Option Rat := none)
    (check : Bool := false) : ShellProg CommandResult := do
  let argv ← Program.done (self.resolved toStr lower command)
  let limit := timeout.getD self.timeout
  (shell (.popen argv stdin.isSome self.cwd self.env)).catching fun
    | .osError text => Program.throw (self.failRun (.cannotRun (argv.headD "") text))
    | x => Program.throw x
  self.oversee argv stdin limit check

end ShellRunner

end TitoOS
