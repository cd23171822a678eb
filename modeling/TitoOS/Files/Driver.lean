import TitoOS.Files.World

/-!
# The filesystem driver

`FileSystemIntegration` (`files.py`), as programs that call on the operating
system.

A `with` block on one of the driver's generators is written as the generator
applied to the block: `walk` and `openFile` take the block as an argument, and
what it raises is raised at the `yield`.
-/

namespace TitoOS

/-- One call of the system. -/
abbrev sys (op : Sys) : FileProg op.Result := Program.perform op

/-- `raise x`. -/
abbrev raising {α : Type} (x : Raised) : FileProg α := Program.throw x

/-- `try p except OSError as exc: handler exc`. -/
def exceptOSError {α : Type} (p : FileProg α) (handler : Errno → FileProg α) : FileProg α :=
  p.catching fun
    | .osError errno => handler errno
    | x => raising x

/-- `FileSystemIntegration`. The constructor resolves the root, and refuses one
that is not a directory, a size limit that is not positive and an empty name. -/
structure FileSystemIntegration where
  name : String := "files"
  name_ne : name ≠ "" := by decide
  root : String
  readOnly : Bool := false
  maxBytes : Int := 1 <<< 20
  maxBytes_pos : 0 < maxBytes := by decide

namespace FileSystemIntegration

/-- The default name passes the check of the constructor. -/
theorem default_name_ne : "files" ≠ "" := by decide

variable (self : FileSystemIntegration)

/-- `_fail`. -/
def fail (message : FileFailure) (operation : String) : Raised :=
  .integration { message, integration := self.name, operation }

/-- `_parts`. -/
def parts (path operation : String) : Except Raised (List String) :=
  let candidate := PurePath.parse path
  if candidate.isAbsolute || candidate.root ≠ "" then
    .error (self.fail (.notRelative path) operation)
  else
    let parts := candidate.parts.filter fun part => part ≠ "." ∧ part ≠ ""
    if parts.any fun part => part = ".." then
      .error (self.fail (.escapes self.root path) operation)
    else .ok parts

/-- `_writable`. -/
def writable (path operation : String) : Except Raised (List String) :=
  if self.readOnly then .error (self.fail (.readOnly self.name) operation)
  else self.parts path operation

/-- Whether an `os.open` failed because of a symlink. `place` is the component it
was given and the directory to look it up in. -/
def escaped (exc : Errno) (place : Option (String × Fd)) : FileProg Bool :=
  if exc = .ELOOP then pure true
  else
    match place with
    | some (part, dir) =>
      if exc = .ENOTDIR then
        -- what Linux reports for a symlink with O_DIRECTORY and O_NOFOLLOW
        exceptOSError
          (do
            let kind ← sys (.statAt dir part)
            pure (decide (kind = .symlink)))
          fun _ => pure false
      else pure false
    | none => pure false

/-- `_describe_oserror`: the exception to raise instead. -/
def describeOserror (exc : Errno) (path operation : String) (place : Option (String × Fd)) :
    FileProg Raised := do
  let escaped ← escaped exc place
  pure (if escaped then self.fail (.escapes self.root path) operation else .osError exc)

/-- One round of the loop of `_walk`: the descriptor of the entry `part` of the
directory `fd`. -/
def enter (path operation : String) (create : Bool) (part : String) (fd : Fd) : FileProg Fd := do
  if create then
    exceptOSError (sys (.mkdirAt fd part)) fun exc =>
      if exc = .EEXIST then pure () else raising (.osError exc)
  exceptOSError (sys (.openAt fd part { directory := true, nofollow := true })) fun exc => do
    let x ← self.describeOserror exc path operation (some (part, fd))
    raising x

/-- `_walk` from the descriptor `fd` on. The `finally` clause closes the
descriptor the loop has got to. -/
def walkFrom {α : Type} (path operation : String) (create : Bool) (block : Fd → FileProg α) :
    List String → Fd → FileProg α
  | [], fd => (block fd).finallyDo (sys (.close fd))
  | part :: rest, fd =>
    (self.enter path operation create part fd).andThen fun
      | .error x => (raising x : FileProg α).finallyDo (sys (.close fd))
      | .ok nxt => (sys (.close fd)).andThen fun
        | .error x => (raising x : FileProg α).finallyDo (sys (.close fd))
        | .ok () => walkFrom path operation create block rest nxt

/-- `with self._walk(parts, path, operation, ...) as fd: block`. -/
def walk {α : Type} (parts : List String) (path operation : String) (create includeLast : Bool)
    (block : Fd → FileProg α) : FileProg α := do
  let components := if includeLast then parts else parts.dropLast
  let fd ← sys .openRoot
  self.walkFrom path operation create block components fd

/-- `with self._open(path, operation, flags, mode, ...) as handle: block`. -/
def openFile {α : Type} (path operation : String) (flags : OpenFlags) (mode encoding : String)
    (writable : Bool) (block : Handle → FileProg α) : FileProg α := do
  let parts ← Program.done (if writable then self.writable path operation
    else self.parts path operation)
  match parts.getLast? with
  | none => raising (self.fail (.notAFile path) operation)
  | some last =>
    self.walk parts path operation writable false fun dir => do
      let fd ← exceptOSError (sys (.openAt dir last { flags with nofollow := true })) fun exc => do
        let x ← self.describeOserror exc path operation none
        raising x
      let handle ← (sys (.fdopen fd mode encoding)).catching fun x => do
        sys (.close fd)
        raising x
      (block handle).finallyDo (sys (.closeHandle handle))

/-! ## Operations -/

/-- `read_text`. -/
def readText (path : String) (encoding : String := "utf-8") : FileProg String :=
  exceptOSError
    (self.openFile path "read_text" {} "r" encoding false fun handle => do
      let size ← sys (.fstat handle)
      if size > self.maxBytes then
        raising (self.fail (.largeFile path self.maxBytes) "read_text")
      else sys (.read handle))
    fun exc => raising (self.fail (.cannot "read" path exc) "read_text")

/-- `write_text`. -/
def writeText (codec : Codec) (path content : String) (encoding : String := "utf-8") :
    FileProg Int := do
  let _ ← Program.done (self.writable path "write_text")
  let bytes ← Program.done (codec.encode encoding content)
  if bytes.length > self.maxBytes then
    raising (self.fail (.largeContent self.maxBytes) "write_text")
  else
    exceptOSError
      (self.openFile path "write_text" { create := true, truncate := true } "w" encoding true
        fun handle => sys (.write handle content))
      fun exc => raising (self.fail (.cannot "write" path exc) "write_text")

/-- `append_text`. -/
def appendText (codec : Codec) (path content : String) (encoding : String := "utf-8") :
    FileProg Int := do
  let _ ← Program.done (self.writable path "append_text")
  let addition ← Program.done (codec.encode encoding content)
  -- checked before opening, so a rejected append never creates the file
  if addition.length > self.maxBytes then
    raising (self.fail (.largeContent self.maxBytes) "append_text")
  else
    exceptOSError
      (self.openFile path "append_text" { create := true, append := true } "a" encoding true
        fun handle => do
          let size ← sys (.fstat handle)
          if size + addition.length > self.maxBytes then
            raising (self.fail (.wouldExceed path self.maxBytes) "append_text")
          else sys (.write handle content))
      fun exc => raising (self.fail (.cannot "append to" path exc) "append_text")

/-- `list_dir`. -/
def listDir (path : String := ".") : FileProg (List String) := do
  let parts ← Program.done (self.parts path "list_dir")
  let entries ← exceptOSError
    (self.walk parts path "list_dir" false true fun dir => sys (.listdir dir))
    fun exc => raising (self.fail (.cannot "list" path exc) "list_dir")
  let listed := entries.map fun entry =>
    if parts.isEmpty then entry else ((PurePath.ofSegments parts).div entry).str
  pure (listed.mergeSort fun a b => decide (a ≤ b))

/-- `exists`. -/
def pathExists (path : String) : FileProg Bool := do
  let parts ← Program.done (self.parts path "exists")
  match parts.getLast? with
  | none => pure true
  | some last =>
    let info ← exceptOSError
      (do
        let kind ← self.walk parts path "exists" false false fun dir => sys (.statAt dir last)
        pure (some kind))
      fun exc =>
        if exc = .ENOENT ∨ exc = .ENOTDIR then pure none
        else raising (self.fail (.cannot "stat" path exc) "exists")
    match info with
    | none => pure false
    | some kind =>
      if kind = .symlink then raising (self.fail (.escapes self.root path) "exists")
      else pure true

/-- `delete`. -/
def delete (path : String) (missingOk : Bool := true) : FileProg Bool := do
  let parts ← Program.done (self.writable path "delete")
  match parts.getLast? with
  | none => raising (self.fail (.notAFile path) "delete")
  | some last =>
    exceptOSError
      (do
        self.walk parts path "delete" false false fun dir => sys (.unlinkAt dir last)
        pure true)
      fun exc =>
        if exc = .ENOENT ∨ exc = .ENOTDIR then
          if missingOk then pure false
          else raising (self.fail (.noSuchFile path) "delete")
        else raising (self.fail (.cannot "delete" path exc) "delete")

end FileSystemIntegration

/-- An operation of the driver with its arguments. -/
inductive FileRequest where
  | readText (path encoding : String)
  | writeText (path content encoding : String)
  | appendText (path content encoding : String)
  | listDir (path : String)
  | pathExists (path : String)
  | delete (path : String) (missingOk : Bool)

/-- What an operation of the driver returns. -/
@[reducible] def FileRequest.Result : FileRequest → Type
  | readText .. => String
  | writeText .. | appendText .. => Int
  | listDir _ => List String
  | pathExists _ | delete .. => Bool

/-- The driver performs an operation. -/
def FileSystemIntegration.perform (self : FileSystemIntegration) (codec : Codec) :
    (r : FileRequest) → FileProg r.Result
  | .readText path encoding => self.readText path encoding
  | .writeText path content encoding => self.writeText codec path content encoding
  | .appendText path content encoding => self.appendText codec path content encoding
  | .listDir path => self.listDir path
  | .pathExists path => self.pathExists path
  | .delete path missingOk => self.delete path missingOk

end TitoOS
