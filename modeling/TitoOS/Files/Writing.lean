import TitoOS.Files.Alone
import TitoOS.Lib.Schedule

/-!
# Writing in steps

A call of `write_text` or `append_text` moves in atomic steps: it opens its file,
an append measures the open file, and what was written is flushed when the file is
closed. A schedule says which call moves next, so an agent that makes its calls one
after the other is one of the schedules.

`Steps` says once what a step can do. The steps are those of the driver on the
operating system: what opening, measuring and flushing do to the tree shows in the
table of files (`Tree.Shows.opened`, `block_follows`).
-/

namespace TitoOS

/-- The regular files of the sandbox. -/
abbrev FileTable := Dict Ino (List UInt8)

/-- The bytes of a file. -/
def FileTable.bytes (files : FileTable) (file : Ino) : List UInt8 := (files.get? file).getD []

/-- The operations that write. -/
inductive WriteOp where
  | writeText
  | appendText
  deriving DecidableEq

namespace WriteOp

def name : WriteOp → String
  | writeText => "write_text"
  | appendText => "append_text"

/-- What the call could not do, in its message. -/
def verb : WriteOp → String
  | writeText => "write"
  | appendText => "append to"

/-- The flags and the mode the operation opens its file with. -/
def flags : WriteOp → OpenFlags
  | writeText => { create := true, truncate := true }
  | appendText => { create := true, append := true }

def mode : WriteOp → String
  | writeText => "w"
  | appendText => "a"

/-- The step that flushes: the second of a write, the third of an append. -/
def flushStep : WriteOp → Nat
  | writeText => 2
  | appendText => 3

/-- Whether the text stream begins at the start of a file of that length. -/
def atStart : WriteOp → Option Nat → Bool
  | writeText, _ => true
  | appendText, found => found.getD 0 == 0

end WriteOp

/-- A call and its arguments. -/
structure WriteCall where
  op : WriteOp
  path : String
  content : String
  encoding : String := "utf-8"
  deriving DecidableEq

/-- Where a call has got to. `found` is the length of the file before the call
opened it, if there was one. -/
inductive WriteStage where
  | start
  /-- The file is open; the text has `addition` bytes. -/
  | opened (file : Ino) (addition : Nat) (found : Option Nat)
  /-- An append that has measured the file. -/
  | checked (file : Ino) (found : Option Nat)
  | returned (count : Int)
  | raised (x : Raised)
  deriving DecidableEq

/-- The file that is open. -/
def WriteStage.file? : WriteStage → Option Ino
  | .opened file .. | .checked file _ => some file
  | .start | .returned _ | .raised _ => none

/-- How a step fails: at a symlink that Linux reports as `ENOTDIR`, with another
`OSError`, or with the error of a name or an encoding. -/
inductive CallFault where
  | symlink
  | osError (errno : Errno)
  | valueError
  | unicodeError
  deriving DecidableEq

/-- A call moves. `fault` is how the system fails it, if it does. -/
structure WriteMove where
  call : Nat
  fault : Option CallFault := none
  deriving DecidableEq

/-- The files, and the calls with their stages. -/
structure SharedFiles where
  files : FileTable
  calls : List (WriteCall × WriteStage)

/-- The calls are about to be made. -/
def SharedFiles.fresh (files : FileTable) (calls : List WriteCall) : SharedFiles where
  files := files
  calls := calls.map (·, .start)

theorem SharedFiles.start_of_mem {files : FileTable} {calls : List WriteCall}
    {p : WriteCall × WriteStage} (h : p ∈ (fresh files calls).calls) : p.2 = .start := by
  obtain ⟨call, -, rfl⟩ := List.mem_map.mp h
  rfl

namespace FileSystemIntegration

/-! ## The steps of a call -/

variable (self : FileSystemIntegration) (codec : Codec)
/- `place` is the file a path leads to, or the one that opening it creates. -/
variable (place : List String → Ino)

/-- What `_open` raises: `_describe_oserror` and the `except OSError`. -/
def openFaulted (call : WriteCall) : CallFault → Raised
  | .symlink | .osError .ELOOP => self.fail (.escapes self.root call.path) call.op.name
  | .osError errno => self.fail (.cannot call.op.verb call.path errno) call.op.name
  | .valueError => .valueError
  | .unicodeError => .unicodeError

/-- What a later step raises: the `except OSError`. -/
def faulted (call : WriteCall) : CallFault → Raised
  | .symlink => self.fail (.cannot call.op.verb call.path .ENOTDIR) call.op.name
  | .osError errno => self.fail (.cannot call.op.verb call.path errno) call.op.name
  | .valueError => .valueError
  | .unicodeError => .unicodeError

/-- The files once a file is open: `O_TRUNC` empties it, `O_CREAT` makes it. -/
def openedFiles (files : FileTable) (op : WriteOp) (file : Ino) : FileTable :=
  match op, files.get? file with
  | .writeText, _ => files.set file []
  | .appendText, none => files.set file []
  | .appendText, some _ => files

/-- The first step: what is checked before the file is opened, and `_open`. -/
def beginStep (files : FileTable) (call : WriteCall) (fault : Option CallFault) :
    FileTable × WriteStage :=
  match self.writable call.path call.op.name with
  | .error x => (files, .raised x)
  | .ok parts =>
    match codec.encode call.encoding call.content with
    | .error x => (files, .raised x)
    | .ok encoded =>
      if encoded.length > self.maxBytes then
        (files, .raised (self.fail (.largeContent self.maxBytes) call.op.name))
      else if parts = [] then (files, .raised (self.fail (.notAFile call.path) call.op.name))
      else
        match fault with
        | some fault => (files, .raised (self.openFaulted call fault))
        | none =>
          let file := place parts
          (openedFiles files call.op file,
            .opened file encoded.length ((files.get? file).map List.length))

/-- The bytes that reach the file. -/
def streamed (call : WriteCall) (found : Option Nat) : List UInt8 :=
  codec.stream call.encoding (call.op.atStart found) call.content

/-- The last step of a write: its bytes go to the start of the file. -/
def flushWrite (files : FileTable) (call : WriteCall) (fault : Option CallFault) (file : Ino)
    (found : Option Nat) : FileTable × WriteStage :=
  match fault with
  | some fault => (files, .raised (self.faulted call fault))
  | none =>
    let bytes := streamed codec call found
    (files.set file (bytes ++ (files.bytes file).drop bytes.length), .returned call.content.length)

/-- The second step of an append: `os.fstat` and the comparison. -/
def checkStep (files : FileTable) (call : WriteCall) (fault : Option CallFault) (file : Ino)
    (addition : Nat) (found : Option Nat) : WriteStage :=
  match fault with
  | some fault => .raised (self.faulted call fault)
  | none =>
    if (files.bytes file).length + addition > self.maxBytes then
      .raised (self.fail (.wouldExceed call.path self.maxBytes) call.op.name)
    else .checked file found

/-- The last step of an append: its bytes go to the end of the file. -/
def flushAppend (files : FileTable) (call : WriteCall) (fault : Option CallFault) (file : Ino)
    (found : Option Nat) : FileTable × WriteStage :=
  match fault with
  | some fault => (files, .raised (self.faulted call fault))
  | none =>
    (files.set file (files.bytes file ++ streamed codec call found),
      .returned call.content.length)

/-- The next step of a call. -/
def advance (files : FileTable) (call : WriteCall) (fault : Option CallFault) :
    WriteStage → FileTable × WriteStage
  | .start => self.beginStep codec place files call fault
  | .opened file addition found =>
    match call.op with
    | .writeText => self.flushWrite codec files call fault file found
    | .appendText => (files, self.checkStep files call fault file addition found)
  | .checked file found => self.flushAppend codec files call fault file found
  | .returned count => (files, .returned count)
  | .raised x => (files, .raised x)

/-- A call moves. -/
def moved (m : WriteMove) (s : SharedFiles) : SharedFiles :=
  match s.calls[m.call]? with
  | none => s
  | some (call, stage) =>
    let (files, stage) := self.advance codec place s.files call m.fault stage
    { files, calls := s.calls.set m.call (call, stage) }

/-- The state a schedule leads to. -/
def scheduled (sched : List WriteMove) (s : SharedFiles) : SharedFiles :=
  Schedule.exec (self.moved codec place) sched s

/-- The moves of a schedule, each with the files before and after. -/
def fileHistory (sched : List WriteMove) (s : SharedFiles) :
    List (WriteMove × FileTable × FileTable) :=
  Schedule.trace (self.moved codec place)
    (fun m s => [(s.files, (self.moved codec place m s).files)]) sched s

/-! ## What a step can do -/

/-- The file a call may write. -/
def target (call : WriteCall) : Option Ino :=
  match self.writable call.path call.op.name with
  | .error _ => none
  | .ok parts => if parts = [] then none else some (place parts)

/-- The call was rejected for size. -/
def RejectedForSize (call : WriteCall) (stage : WriteStage) : Prop :=
  stage = .raised (self.fail (.largeContent self.maxBytes) call.op.name)
    ∨ stage = .raised (self.fail (.wouldExceed call.path self.maxBytes) call.op.name)

/-- A step, from the stage before it to the files and the stage after it. -/
inductive Steps (files : FileTable) (call : WriteCall) :
    Option CallFault → WriteStage → FileTable → WriteStage → Prop
  /-- Nothing is opened. -/
  | refused {fault : Option CallFault} (x : Raised) :
      (fault = none → ∀ file, self.target place call = some file → ∀ encoded,
        codec.encode call.encoding call.content = .ok encoded → encoded.length > self.maxBytes) →
      Steps files call fault .start files (.raised x)
  | opens {file : Ino} {encoded : List UInt8} :
      self.target place call = some file → codec.encode call.encoding call.content = .ok encoded →
      encoded.length ≤ self.maxBytes →
      Steps files call none .start (openedFiles files call.op file)
        (.opened file encoded.length ((files.get? file).map List.length))
  /-- The system fails a later step. -/
  | fails {fault : CallFault} {stage : WriteStage} {x : Raised} :
      stage.file?.isSome = true → ¬ self.RejectedForSize call (.raised x) →
      Steps files call (some fault) stage files (.raised x)
  | writes {file : Ino} {addition : Nat} {found : Option Nat} {bytes : List UInt8} :
      call.op = .writeText → bytes = streamed codec call found →
      Steps files call none (.opened file addition found)
        (files.set file (bytes ++ (files.bytes file).drop bytes.length))
        (.returned call.content.length)
  | full {file : Ino} {addition : Nat} {found : Option Nat} :
      call.op = .appendText → (files.bytes file).length + addition > self.maxBytes →
      Steps files call none (.opened file addition found) files
        (.raised (self.fail (.wouldExceed call.path self.maxBytes) call.op.name))
  | measures {file : Ino} {addition : Nat} {found : Option Nat} :
      call.op = .appendText → (files.bytes file).length + addition ≤ self.maxBytes →
      Steps files call none (.opened file addition found) files (.checked file found)
  | appends {file : Ino} {found : Option Nat} :
      Steps files call none (.checked file found)
        (files.set file (files.bytes file ++ streamed codec call found))
        (.returned call.content.length)
  /-- A call that has ended stays as it is. -/
  | ended {fault : Option CallFault} {stage : WriteStage} :
      (∃ count, stage = .returned count) ∨ (∃ x, stage = .raised x) →
      Steps files call fault stage files stage

section Steps

variable {self codec place} {files : FileTable} {call : WriteCall} {fault : Option CallFault}
  {stage : WriteStage} {file : Ino}

@[simp] theorem not_rejectedForSize_faulted (f : CallFault) :
    ¬ self.RejectedForSize call (.raised (self.faulted call f)) := by
  cases f <;> simp [RejectedForSize, faulted, fail]

theorem target_eq_some_iff : self.target place call = some file ↔
    ∃ parts, self.writable call.path call.op.name = .ok parts ∧ parts ≠ []
      ∧ place parts = file := by
  unfold target
  cases self.writable call.path call.op.name with
  | error x => simp
  | ok parts => by_cases hparts : parts = [] <;> simp [hparts]

theorem beginStep_steps (files : FileTable) (call : WriteCall) (fault : Option CallFault) :
    self.Steps codec place files call fault .start
      (self.beginStep codec place files call fault).1
      (self.beginStep codec place files call fault).2 := by
  unfold beginStep
  cases hwritable : self.writable call.path call.op.name with
  | error x =>
    refine .refused x fun _ file htarget => ?_
    rw [target, hwritable] at htarget
    cases htarget
  | ok parts =>
    cases hencode : codec.encode call.encoding call.content with
    | error x =>
      refine .refused x fun _ _ _ encoded hok => ?_
      rw [hencode] at hok
      cases hok
    | ok encoded =>
      simp only
      split
      · rename_i hsize
        refine .refused _ fun _ _ _ encoded' hok => ?_
        obtain rfl := Except.ok.inj (hencode.symm.trans hok)
        exact hsize
      · rename_i hsize
        split
        · rename_i hparts
          refine .refused _ fun _ file htarget => ?_
          obtain ⟨parts', hok, hne, -⟩ := target_eq_some_iff.mp htarget
          obtain rfl := Except.ok.inj (hwritable.symm.trans hok)
          exact absurd hparts hne
        · rename_i hparts
          cases fault with
          | some f => exact .refused _ (by simp)
          | none =>
            exact .opens (target_eq_some_iff.mpr ⟨parts, hwritable, hparts, rfl⟩) hencode (by omega)

/-- **What a step does** is one of these. -/
theorem advance_steps (self : FileSystemIntegration) (codec : Codec) (place : List String → Ino)
    (files : FileTable) (call : WriteCall) (fault : Option CallFault) (stage : WriteStage) :
    self.Steps codec place files call fault stage
      (self.advance codec place files call fault stage).1
      (self.advance codec place files call fault stage).2 := by
  cases stage with
  | start => exact beginStep_steps files call fault
  | returned count => exact .ended (.inl ⟨count, rfl⟩)
  | raised x => exact .ended (.inr ⟨x, rfl⟩)
  | checked file found =>
    cases fault with
    | some f => exact .fails rfl (not_rejectedForSize_faulted f)
    | none => exact .appends
  | opened file addition found =>
    unfold advance
    cases hop : call.op with
    | writeText =>
      cases fault with
      | some f => exact .fails rfl (not_rejectedForSize_faulted f)
      | none => exact .writes hop rfl
    | appendText =>
      cases fault with
      | some f => exact .fails rfl (not_rejectedForSize_faulted f)
      | none =>
        simp only [checkStep]
        split
        · rename_i hfull
          exact .full hop hfull
        · exact .measures hop (by omega)

end Steps

/-! ## Runs -/

section Runs

variable {self codec place} {s : SharedFiles} {pre : List WriteMove} {m : WriteMove}

theorem moved_of_none (h : s.calls[m.call]? = none) : self.moved codec place m s = s := by
  rw [moved, h]

theorem moved_of_some (self : FileSystemIntegration) (codec : Codec) (place : List String → Ino)
    {call : WriteCall} {stage : WriteStage} (h : s.calls[m.call]? = some (call, stage)) :
    self.moved codec place m s =
      { files := (self.advance codec place s.files call m.fault stage).1,
        calls := s.calls.set m.call
          (call, (self.advance codec place s.files call m.fault stage).2) } := by
  rw [moved, h]

theorem scheduled_concat : self.scheduled codec place (pre ++ [m]) s
    = self.moved codec place m (self.scheduled codec place pre s) :=
  Schedule.exec_append _ pre [m] s

/-- One more move: there is no such call, or the call makes its next step. -/
theorem mover_cases (self : FileSystemIntegration) (codec : Codec) (place : List String → Ino)
    (s : SharedFiles) (pre : List WriteMove) (m : WriteMove) :
    ((self.scheduled codec place pre s).calls[m.call]? = none
        ∧ self.scheduled codec place (pre ++ [m]) s = self.scheduled codec place pre s)
      ∨ ∃ call stage stage', (self.scheduled codec place pre s).calls[m.call]? = some (call, stage)
        ∧ (self.scheduled codec place (pre ++ [m]) s).calls[m.call]? = some (call, stage')
        ∧ self.Steps codec place (self.scheduled codec place pre s).files call m.fault stage
            (self.scheduled codec place (pre ++ [m]) s).files stage' := by
  rw [scheduled_concat]
  generalize self.scheduled codec place pre s = t
  cases hmoving : t.calls[m.call]? with
  | none => exact .inl ⟨rfl, moved_of_none hmoving⟩
  | some p =>
    obtain ⟨call, stage⟩ := p
    rw [moved_of_some _ _ _ hmoving]
    have hlt : m.call < t.calls.length := (List.getElem?_eq_some_iff.mp hmoving).1
    exact .inr ⟨call, stage, _, rfl, List.getElem?_set_self hlt, advance_steps ..⟩

/-- Where a call has got to after one more move. -/
theorem call_concat {k : Nat} {call : WriteCall} {stage' : WriteStage}
    (h : (self.scheduled codec place (pre ++ [m]) s).calls[k]? = some (call, stage')) :
    ∃ stage, (self.scheduled codec place pre s).calls[k]? = some (call, stage)
      ∧ (m.call ≠ k ∧ stage' = stage
        ∨ m.call = k
          ∧ self.Steps codec place (self.scheduled codec place pre s).files call m.fault stage
              (self.scheduled codec place (pre ++ [m]) s).files stage') := by
  rw [scheduled_concat] at h ⊢
  generalize self.scheduled codec place pre s = t at h ⊢
  cases hmoving : t.calls[m.call]? with
  | none =>
    rw [moved_of_none hmoving] at h
    refine ⟨stage', h, .inl ⟨?_, rfl⟩⟩
    rintro rfl
    rw [hmoving] at h
    cases h
  | some p =>
    obtain ⟨moving, stage⟩ := p
    rw [moved_of_some _ _ _ hmoving] at h ⊢
    by_cases hk : m.call = k
    · subst hk
      have hlt : m.call < t.calls.length := (List.getElem?_eq_some_iff.mp hmoving).1
      rw [List.getElem?_set_self hlt] at h
      obtain ⟨rfl, rfl⟩ := Prod.mk.inj (Option.some.inj h)
      exact ⟨stage, hmoving, .inr ⟨rfl, advance_steps ..⟩⟩
    · rw [List.getElem?_set_ne hk] at h
      exact ⟨stage', h, .inl ⟨hk, rfl⟩⟩

end Runs

end FileSystemIntegration

/-! ## The operating system behind the steps -/

/-- The table holds the regular files of the tree. -/
def Tree.Shows (t : Tree) (files : FileTable) : Prop :=
  ∀ i content, t.nodes.get? i = some (.file content) ↔ files.get? i = some content

namespace Tree.Shows

variable {t t' : Tree} {files : FileTable} {d i : Ino} {name : String} {op : WriteOp}

theorem put_file (h : t.Shows files) (i : Ino) (content : List UInt8) :
    (t.put i (.file content)).Shows (files.set i content) := by
  intro j content'
  rw [Tree.get?_put, Dict.get?_set]
  split
  · simp
  · exact h j content'

/-- Opening a regular file, or a new one, does to the files what the first step
of a call does. -/
theorem opened (h : t.Shows files) (hkind : t.kind? i = none ∨ t.kind? i = some .regular)
    (hopens : FileWorld.OpensEntry t d name { op.flags with nofollow := true } i t') :
    t'.Shows (FileSystemIntegration.openedFiles files op i) := by
  cases hopens with
  | @existing node hentry hnode =>
    have hregular : node.kind = .regular := by
      simpa [Tree.kind?, hnode] using hkind
    cases node with
    | dir | link => cases hregular
    | file content =>
      have hfile := (h i content).mp hnode
      cases op with
      | writeText => exact h.put_file i []
      | appendText =>
        simp only [FileSystemIntegration.openedFiles, hfile]
        exact h
  | @created dir hname hd hnew hcreate hfresh =>
    have hnone : files.get? i = none := by
      cases hfile : files.get? i with
      | none => rfl
      | some content =>
        rw [← h, hfresh] at hfile
        cases hfile
    have hdir : (t.put d (.dir (dir.insert name hname i))).Shows files := by
      intro j content
      rw [Tree.get?_put]
      split
      · subst j
        rw [Tree.dir?_eq_some_iff] at hd
        rw [← h, hd]
        simp
      · exact h j content
    have hmade : FileSystemIntegration.openedFiles files op i = files.set i [] := by
      cases op <;> simp [FileSystemIntegration.openedFiles, hnone]
    rw [hmade]
    exact hdir.put_file i []

/-- What an append measures. -/
theorem measured {codec : Codec} {v w' : FileWorld} {handle : Handle} {size : Int}
    {content : List UInt8} (h : v.tree.Shows files) (hi : v.inode handle.fd = some i)
    (hfile : files.get? i = some content) (hans : v.answers codec (.fstat handle) (.ok size) w') :
    size = (files.bytes i).length := by
  have hsize := hans.2 i content hi ((h i content).mpr hfile)
  simpa [FileTable.bytes, hfile] using hsize

/-- What is flushed goes to the start of the file, or to its end. -/
theorem flushed (h : t.Shows files) {append : Bool} {pending content : List UInt8}
    (hfile : files.get? i = some content) :
    (FileWorld.flushed t { ino := i, append, pending }).Shows
      (files.set i (if append then files.bytes i ++ pending
        else pending ++ (files.bytes i).drop pending.length)) := by
  have hnode := (h i content).mpr hfile
  simp only [FileWorld.flushed, hnode, FileTable.bytes, hfile, Option.getD_some]
  exact h.put_file i _

end Tree.Shows

namespace FileSystemIntegration

variable (self : FileSystemIntegration) (codec : Codec)

/-- The driver performs the call. -/
def performCall (call : WriteCall) : FileProg Int :=
  match call.op with
  | .writeText => self.writeText codec call.path call.content call.encoding
  | .appendText => self.appendText codec call.path call.content call.encoding

/-- What the call does once its file is open. -/
def openBlock (call : WriteCall) (encoded : List UInt8) (handle : Handle) : FileProg Int :=
  match call.op with
  | .writeText => sys (.write handle call.content)
  | .appendText => do
    let size ← sys (.fstat handle)
    if size + encoded.length > self.maxBytes then
      raising (self.fail (.wouldExceed call.path self.maxBytes) call.op.name)
    else sys (.write handle call.content)

variable {self codec} {place : List String → Ino}

/-- What the call does once its text is encoded. -/
def performEncoded (self : FileSystemIntegration) (call : WriteCall) (encoded : List UInt8) :
    FileProg Int :=
  if encoded.length > self.maxBytes then
    raising (self.fail (.largeContent self.maxBytes) call.op.name)
  else
    exceptOSError (self.openFile call.path call.op.name call.op.flags call.op.mode call.encoding
      true (self.openBlock call encoded)) fun exc =>
        raising (self.fail (.cannot call.op.verb call.path exc) call.op.name)

/-- What both operations have in common. -/
theorem performCall_eq (call : WriteCall) :
    self.performCall codec call = (do
      let _ ← Program.done (self.writable call.path call.op.name)
      let encoded ← Program.done (codec.encode call.encoding call.content)
      self.performEncoded call encoded) := by
  obtain ⟨op, path, content, encoding⟩ := call
  cases op with
  | writeText => exact rfl
  | appendText => exact rfl

/-- **The first step of a call**: what it refuses unless the system fails it, the
driver refuses without calling on the system; and where it opens a file, the driver
goes on to open one for the block of the call. -/
theorem performCall_cases (files : FileTable) (call : WriteCall) :
    (∃ x, self.beginStep codec place files call none = (files, .raised x)
        ∧ self.performCall codec call = Program.throw x)
      ∨ ∃ file encoded, self.beginStep codec place files call none
            = (openedFiles files call.op file,
              .opened file encoded.length ((files.get? file).map List.length))
          ∧ self.performCall codec call
            = exceptOSError (self.openFile call.path call.op.name call.op.flags call.op.mode
              call.encoding true (self.openBlock call encoded)) fun exc =>
                raising (self.fail (.cannot call.op.verb call.path exc) call.op.name) := by
  rw [performCall_eq]
  unfold beginStep
  cases hparts : self.writable call.path call.op.name with
  | error x => exact .inl ⟨x, rfl, rfl⟩
  | ok parts =>
    cases hencoded : codec.encode call.encoding call.content with
    | error x => exact .inl ⟨x, rfl, rfl⟩
    | ok encoded =>
      have hrun : (do
          let _ ← Program.done (Except.ok parts)
          let encoded ← Program.done (Except.ok encoded)
          self.performEncoded call encoded : FileProg Int) = self.performEncoded call encoded := rfl
      rw [hrun, performEncoded]
      simp only
      by_cases hsize : encoded.length > self.maxBytes
      · rw [if_pos hsize, if_pos hsize]
        exact .inl ⟨_, rfl, rfl⟩
      · rw [if_neg hsize, if_neg hsize]
        -- the root is no file: openFile refuses it before it calls on the system
        by_cases hempty : parts = []
        · subst hempty
          rw [if_pos rfl]
          refine .inl ⟨_, rfl, ?_⟩
          unfold openFile
          rw [if_pos rfl, hparts]
          rfl
        · rw [if_neg hempty]
          exact .inr ⟨place parts, encoded, rfl, rfl⟩

/-- What became of a call, as its stage says. -/
def EndsAs (outcome : Except Raised Int) : WriteStage → Prop
  | .returned count => outcome = .ok count
  | .raised x => outcome = .error x
  | _ => False

/-- What the block of a call and the closing of its file leave behind: what the steps
of the call do, one after the other. -/
def Ended (self : FileSystemIntegration) (codec : Codec) (place : List String → Ino)
    (files : FileTable) (call : WriteCall) (stage : WriteStage) (outcome : Except Raised Int)
    (w : FileWorld) : Prop :=
  ∃ f₁ f₂ middle later, self.advance codec place files call f₁ stage = middle
    ∧ self.advance codec place middle.1 call f₂ middle.2 = later
    ∧ w.tree.Shows later.1 ∧ EndsAs outcome later.2

/-- As `Ended`, before the exception of the system is wrapped. -/
def Caught (self : FileSystemIntegration) (codec : Codec) (place : List String → Ino)
    (files : FileTable) (call : WriteCall) (stage : WriteStage) (outcome : Except Raised Int)
    (w : FileWorld) : Prop :=
  match outcome with
  | .error (.osError exc) =>
    self.Ended codec place files call stage (.error (self.faulted call (.osError exc))) w
  | outcome => self.Ended codec place files call stage outcome w

section Block

variable {call : WriteCall} {encoded content pending : List UInt8} {handle : Handle}
  {w : FileWorld} {files : FileTable} {file : Ino} {addition : Nat} {found : Option Nat}
  {append : Bool}

/-- Closing a file flushes what is pending, or fails and leaves the files as they are. -/
theorem closes {Q : Except Raised Int → FileWorld → Prop} {outcome : Except Raised Int}
    (hshows : w.tree.Shows files) (hfile : files.get? file = some content)
    (hheld : w.held.get? handle.fd = some { ino := file, append, pending })
    (hflushed : ∀ w : FileWorld, w.tree.Shows (files.set file
        (if append then files.bytes file ++ pending
          else pending ++ (files.bytes file).drop pending.length)) → Q outcome w)
    (hfails : ∀ errno (w : FileWorld), w.tree.Shows files → Q (.error (.osError errno)) w) :
    Yields codec (sys (.closeHandle handle)) w fun last w =>
      Q (Program.finalOutcome outcome last) w := by
  refine .sys fun answer w' hans _ => ?_
  cases answer with
  | ok =>
    obtain ⟨-, htree⟩ := hans
    rw [hheld] at htree
    refine hflushed w' ?_
    rw [show w'.tree = FileWorld.flushed w.tree { ino := file, append, pending } from htree]
    exact hshows.flushed hfile
  | error x =>
    obtain ⟨rfl, errno, rfl⟩ := hans
    exact hfails errno _ hshows

/-- Flushing nothing leaves the files as they are. -/
theorem set_nothing (hfile : files.get? file = some content) (append : Bool) :
    files.set file (if append then files.bytes file ++ []
      else [] ++ (files.bytes file).drop ([] : List UInt8).length) = files := by
  have hbytes : files.bytes file = content := by rw [FileTable.bytes, hfile, Option.getD_some]
  have hsame : (if append then content ++ []
      else [] ++ content.drop ([] : List UInt8).length) = content := by
    cases append with
    | true => exact List.append_nil content
    | false => rfl
  rw [hbytes, hsame, Dict.set_of_get? hfile]

/-- What a failed step leaves. -/
theorem ended_of_fault (f : CallFault) (hshows : w.tree.Shows files) :
    self.Ended codec place files call (.opened file addition found)
      (.error (self.faulted call f)) w := by
  refine ⟨some f, none, (files, .raised (self.faulted call f)), _, ?_, rfl, hshows, rfl⟩
  unfold advance
  cases call.op with
  | writeText | appendText => rfl

/-- A block that ends with nothing written, and the closing of its file. -/
theorem closes_unwritten {outcome : Except Raised Int} (hshows : w.tree.Shows files)
    (hfile : files.get? file = some content)
    (hheld : w.held.get? handle.fd = some { ino := file, append })
    (hout : ∀ w : FileWorld, w.tree.Shows files →
      self.Caught codec place files call (.opened file addition found) outcome w) :
    Yields codec (sys (.closeHandle handle)) w fun last w => self.Caught codec place files call
      (.opened file addition found) (Program.finalOutcome outcome last) w := by
  refine closes hshows hfile hheld (fun w htree => hout w ?_) fun errno w htree =>
    ended_of_fault (.osError errno) htree
  rwa [set_nothing hfile] at htree

/-- Writing, and the closing of the file. -/
theorem writes_follows (hshows : w.tree.Shows files) (hfile : files.get? file = some content)
    (hheld : w.held.get? handle.fd = some { ino := file, append })
    (hwritten : ∀ w : FileWorld, w.tree.Shows (files.set file
        (if append then files.bytes file ++ codec.stream handle.encoding handle.atStart call.content
          else codec.stream handle.encoding handle.atStart call.content
            ++ (files.bytes file).drop
              (codec.stream handle.encoding handle.atStart call.content).length)) →
      self.Ended codec place files call (.opened file addition found) (.ok call.content.length) w) :
    Yields codec (sys (.write handle call.content)) w fun outcome w =>
      Yields codec (sys (.closeHandle handle)) w fun last w => self.Caught codec place files call
        (.opened file addition found) (Program.finalOutcome outcome last) w := by
  refine .sys fun answer w' hans _ => ?_
  cases answer with
  | error x =>
    obtain ⟨rfl, hx⟩ := hans
    refine closes_unwritten hshows hfile hheld fun w htree => ?_
    rcases hx with ⟨errno, rfl⟩ | rfl
    · exact ended_of_fault (.osError errno) htree
    · exact ended_of_fault .unicodeError htree
  | ok count =>
    obtain ⟨rfl, rfl⟩ := hans
    refine closes hshows hfile (by rw [Dict.get?_modify_self, hheld]; rfl)
      hwritten fun errno w htree => ended_of_fault (.osError errno) htree

/-- **The block of a call does what its steps do**: whatever the system answers, the
call ends as its steps after the first, made one after the other, and the tree shows
the files they lead to. -/
theorem block_follows (hshows : w.tree.Shows files) (hfile : files.get? file = some content)
    (hheld : w.held.get? handle.fd = some { ino := file, append := call.op.flags.append })
    (hencoding : handle.encoding = call.encoding)
    (hstart : handle.atStart = call.op.atStart found) :
    Yields codec (exceptOSError
        ((self.openBlock call encoded handle).finallyDo (sys (.closeHandle handle))) fun exc =>
          raising (self.fail (.cannot call.op.verb call.path exc) call.op.name)) w
      (self.Ended codec place files call (.opened file encoded.length found)) := by
  refine .exceptOSError ((Yields.finallyDo
    (Q := self.Caught codec place files call (.opened file encoded.length found)) ?_).mono
      fun outcome w hcaught => ?_)
  · unfold openBlock
    cases hop : call.op with
    | writeText =>
      rw [hop] at hheld
      refine writes_follows hshows hfile hheld fun w htree =>
        ⟨none, none, _, _, rfl, rfl, ?_⟩
      rw [hencoding, hstart] at htree
      simp only [advance, hop]
      exact ⟨htree, rfl⟩
    | appendText =>
      rw [hop] at hheld
      refine .bind (.sys fun answer w' hans _ => ?_)
      cases answer with
      | error x =>
        obtain ⟨rfl, errno, rfl⟩ := hans
        exact closes_unwritten hshows hfile hheld fun w htree =>
          ended_of_fault (.osError errno) htree
      | ok size =>
        -- nobody else is at work, so the size measured is what the file holds
        have hsize := hshows.measured (by rw [FileWorld.inode, hheld]; rfl) hfile hans
        obtain ⟨rfl, -⟩ := hans
        by_cases hfull : size + encoded.length > self.maxBytes
        · simp only [if_pos hfull]
          refine .raising (closes_unwritten hshows hfile hheld fun w htree =>
            ⟨none, none, _, _, rfl, rfl, ?_⟩)
          simp only [advance, hop, checkStep]
          rw [if_pos (hsize ▸ hfull)]
          exact ⟨htree, rfl⟩
        · simp only [if_neg hfull]
          refine writes_follows hshows hfile hheld fun w htree =>
            ⟨none, none, _, _, rfl, rfl, ?_⟩
          rw [hencoding, hstart] at htree
          simp only [advance, hop, checkStep]
          rw [if_neg (hsize ▸ hfull)]
          exact ⟨htree, rfl⟩
  · cases outcome with
    | ok => exact hcaught
    | error x =>
      cases x with
      | osError exc => exact .raising hcaught
      | _ => exact hcaught

end Block

end FileSystemIntegration

end TitoOS
