import TitoOS.Files.Path
import TitoOS.Lib.Dict
import TitoOS.Lib.Program

/-!
# The operating system

The directory tree, the descriptors an operation holds, and the calls of the
`os` module and of file objects that `files.py` makes.

`FileWorld.answers` says how the system answers a call. A call that names a
single component relative to a held descriptor acts on exactly that entry of the
directory, and `os.open` does so only with `O_NOFOLLOW`; any other named call
may end up anywhere. Every call may fail. Between two calls others may change
the tree below the root in any way (`FileWorld.interferes`).
-/

namespace TitoOS

/-- The error numbers the driver tells apart. -/
inductive Errno where
  | ELOOP
  | ENOTDIR
  | EEXIST
  | ENOENT
  | other (code : Nat)
  deriving DecidableEq

/-- What is wrong, in an `IntegrationError` of the driver. -/
inductive FileFailure where
  /-- `path must be relative to the root: {path!r}` -/
  | notRelative (path : String)
  /-- `path escapes the sandbox root {root}: {path!r}` -/
  | escapes (root path : String)
  /-- `integration {name!r} is read-only` -/
  | readOnly (name : String)
  /-- `{path!r} is not a file` -/
  | notAFile (path : String)
  /-- `{path!r} is larger than max_bytes ({maxBytes} bytes)` -/
  | largeFile (path : String) (maxBytes : Int)
  /-- `content is larger than max_bytes ({maxBytes} bytes)` -/
  | largeContent (maxBytes : Int)
  /-- `appending to {path!r} would exceed max_bytes ({maxBytes} bytes)` -/
  | wouldExceed (path : String) (maxBytes : Int)
  /-- `cannot {verb} {path!r}: {exc}` -/
  | cannot (verb path : String) (exc : Errno)
  /-- `no such file: {path!r}` -/
  | noSuchFile (path : String)
  deriving DecidableEq

/-- `IntegrationError`. -/
structure IntegrationError where
  message : FileFailure
  integration : String
  operation : String
  deriving DecidableEq

/-- What a call of the system or of the driver raises. `FileExistsError`,
`FileNotFoundError` and `NotADirectoryError` are the `OSError`s with the
corresponding error number. -/
inductive Raised where
  | osError (errno : Errno)
  | valueError
  | unicodeError
  | lookupError
  | integration (e : IntegrationError)
  deriving DecidableEq

/-! ## The tree -/

/-- An inode number. -/
abbrev Ino := Nat

/-- A file descriptor. -/
abbrev Fd := Nat

/-- The entries of a directory, each named by a single component. -/
structure Directory where
  entries : Dict String Ino
  named : ∀ name ∈ entries.keys, IsComponent name

namespace Directory

/-- The empty directory. -/
def empty : Directory := ⟨∅, fun _ h => by cases h⟩

/-- A new entry. -/
def insert (d : Directory) (name : String) (hname : IsComponent name) (i : Ino) : Directory where
  entries := d.entries.set name i
  named := by
    intro x hx
    obtain ⟨j, hj⟩ := Dict.mem_keys_iff.mp hx
    rw [Dict.get?_set] at hj
    split at hj
    · subst x
      exact hname
    · exact d.named x (Dict.mem_keys_of_get? hj)

/-- An entry less. -/
def remove (d : Directory) (name : String) : Directory where
  entries := d.entries.erase name
  named := by
    intro x hx
    rw [Dict.keys_erase] at hx
    exact d.named x (List.mem_of_mem_filter hx)

end Directory

/-- What an inode holds. -/
inductive Node where
  | file (content : List UInt8)
  | dir (d : Directory)
  | link (target : String)

/-- What the mode bits of `os.stat` say. -/
inductive FileKind where
  | regular
  | directory
  | symlink
  deriving DecidableEq

def Node.kind : Node → FileKind
  | file _ => .regular
  | dir _ => .directory
  | link _ => .symlink

/-- The inodes, and the one the driver was given as its root. -/
structure Tree where
  root : Ino
  nodes : Dict Ino Node

namespace Tree

/-- The directory at `i`. -/
def dir? (t : Tree) (i : Ino) : Option Directory :=
  match t.nodes.get? i with
  | some (.dir d) => some d
  | _ => none

/-- The entry `name` of the directory `d`. -/
def entry (t : Tree) (d : Ino) (name : String) : Option Ino :=
  (t.dir? d).bind fun dir => dir.entries.get? name

/-- What `i` is. -/
def kind? (t : Tree) (i : Ino) : Option FileKind := (t.nodes.get? i).map Node.kind

/-- The node at `i` replaced. -/
def put (t : Tree) (i : Ino) (node : Node) : Tree := { t with nodes := t.nodes.set i node }

end Tree

/-! ## Calls -/

/-- The flags of `os.open` that matter here. -/
structure OpenFlags where
  create : Bool := false
  truncate : Bool := false
  append : Bool := false
  directory : Bool := false
  nofollow : Bool := false
  deriving DecidableEq

/-- A file object: the descriptor it wraps, its encoding, and whether it began at
the start of the file. -/
structure Handle where
  fd : Fd
  encoding : String
  atStart : Bool := true
  deriving DecidableEq

/-- The calls `files.py` makes. -/
inductive Sys where
  /-- `os.open(self.root, flags)` -/
  | openRoot
  /-- `os.open(name, flags, dir_fd=dir)` -/
  | openAt (dir : Fd) (name : String) (flags : OpenFlags)
  /-- `os.mkdir(name, dir_fd=dir)` -/
  | mkdirAt (dir : Fd) (name : String)
  /-- `os.stat(name, dir_fd=dir, follow_symlinks=False)` -/
  | statAt (dir : Fd) (name : String)
  /-- `os.unlink(name, dir_fd=dir)` -/
  | unlinkAt (dir : Fd) (name : String)
  /-- `os.listdir(fd)` -/
  | listdir (fd : Fd)
  /-- `os.close(fd)` -/
  | close (fd : Fd)
  /-- `os.fdopen(fd, mode, encoding=encoding)` -/
  | fdopen (fd : Fd) (mode encoding : String)
  /-- `os.fstat(handle.fileno()).st_size` -/
  | fstat (handle : Handle)
  /-- `handle.read()` -/
  | read (handle : Handle)
  /-- `handle.write(content)` -/
  | write (handle : Handle) (content : String)
  /-- `handle.close()`, at the end of `with handle` -/
  | closeHandle (handle : Handle)
  deriving DecidableEq

namespace Sys

/-- What a call returns. -/
@[reducible] def Result : Sys → Type
  | openRoot | openAt .. => Fd
  | statAt .. => FileKind
  | listdir _ => List String
  | fdopen .. => Handle
  | fstat _ => Int
  | read _ => String
  | write .. => Int
  | mkdirAt .. | unlinkAt .. | close _ | closeHandle _ => Unit

/-- The entry a call names, and the descriptor it is relative to. -/
def named? : Sys → Option (Fd × String)
  | openAt dir name _ | mkdirAt dir name | statAt dir name | unlinkAt dir name => some (dir, name)
  | _ => none

/-- The descriptor whose file or directory a call reads, measures or changes. -/
def subject? : Sys → Option Fd
  | listdir fd | fdopen fd .. => some fd
  | fstat handle | read handle | write handle _ | closeHandle handle => some handle.fd
  | _ => none

/-- The call opens a descriptor. -/
def opens : Sys → Bool
  | openRoot | openAt .. => true
  | _ => false

/-- The descriptor a call may close. -/
def closes? : Sys → Option Fd
  | close fd | fdopen fd .. => some fd
  | closeHandle handle => some handle.fd
  | _ => none

end Sys

/-- The text codecs: `content.encode(encoding)`, what reading bytes as text gives,
and the bytes that a file object writes of a text, which are those of the
incremental encoder. -/
structure Codec where
  encode : (encoding content : String) → Except Raised (List UInt8)
  decode : (encoding : String) → List UInt8 → Except Raised String
  stream : (encoding : String) → (atStart : Bool) → (content : String) → List UInt8
  /-- Nothing is added: there is no byte order mark except at the start, and what
  ends a stateful encoding is not written. -/
  stream_le : ∀ {encoding content bytes}, encode encoding content = .ok bytes →
    ∀ atStart, (stream encoding atStart content).length ≤ bytes.length

/-! ## Answers -/

/-- What a held descriptor refers to, how it was opened, and what a file object
over it has not written yet. -/
structure Descriptor where
  ino : Ino
  append : Bool := false
  pending : List UInt8 := []

/-- The tree, and the descriptors the operation holds. -/
structure FileWorld where
  tree : Tree
  held : Dict Fd Descriptor

namespace FileWorld

/-- The inode a held descriptor refers to. -/
def inode (w : FileWorld) (fd : Fd) : Option Ino := (w.held.get? fd).map Descriptor.ino

/-- The directory in which a call acts on the entry `name`: none if what it
names is no entry, or the descriptor is not held. -/
def place (w : FileWorld) (dir : Fd) (name : String) : Option Ino :=
  if IsComponent name then w.inode dir else none

/-- A failed call: an `OSError`, a `ValueError` for a name with a NUL in it, or a
`UnicodeError` for one the file system encoding does not have. -/
def Refused (w : FileWorld) (name : String) (x : Raised) (w' : FileWorld) : Prop :=
  w' = w ∧ ((∃ errno, x = .osError errno) ∨ (x = .valueError ∧ '\x00' ∈ name.toList)
    ∨ x = .unicodeError)

/-- Whether a file object over the descriptor begins at the start of its file:
always, unless it is for appending and there is something in the file. -/
def BeginsAtStart (w : FileWorld) (fd : Fd) (mode : String) (atStart : Bool) : Prop :=
  ∀ i content, w.inode fd = some i → w.tree.nodes.get? i = some (.file content) →
    atStart = (mode != "a" || content.isEmpty)

/-- The tree after bytes are written to a file: at its end in append mode,
otherwise from its start. -/
def flushed (t : Tree) (d : Descriptor) : Tree :=
  match t.nodes.get? d.ino with
  | some (.file content) =>
    t.put d.ino (.file (if d.append then content ++ d.pending
      else d.pending ++ content.drop d.pending.length))
  | _ => t

/-- `os.open` on the entry `name` of the directory `d`, with `O_NOFOLLOW`: the
inode it opens and the tree afterwards. -/
inductive OpensEntry (t : Tree) (d : Ino) (name : String) (flags : OpenFlags) : Ino → Tree → Prop
  | existing {i : Ino} {node : Node} :
      t.entry d name = some i → t.nodes.get? i = some node → node.kind ≠ .symlink →
      (flags.directory = true → node.kind = .directory) →
      OpensEntry t d name flags i
        (if flags.truncate && node.kind = .regular then t.put i (.file []) else t)
  | created {i : Ino} {dir : Directory} (hname : IsComponent name) :
      t.dir? d = some dir → dir.entries.get? name = none → flags.create = true →
      t.nodes.get? i = none →
      OpensEntry t d name flags i ((t.put d (.dir (dir.insert name hname i))).put i (.file []))

/-- How the system answers a call. -/
def answers (codec : Codec) (w : FileWorld) :
    (op : Sys) → Except Raised op.Result → FileWorld → Prop
  | .openRoot, .ok fd, w' =>
      w.tree.kind? w.tree.root = some .directory ∧ fd ∉ w.held.keys
        ∧ w' = { w with held := w.held.set fd { ino := w.tree.root } }
  | .openRoot, .error x, w' => w' = w ∧ ∃ errno, x = .osError errno
  | .openAt dir name flags, .ok fd, w' =>
      '\x00' ∉ name.toList ∧ fd ∉ w.held.keys
        ∧ ∃ i, w'.held = w.held.set fd { ino := i, append := flags.append }
          ∧ match w.place dir name, flags.nofollow with
            | some d, true => OpensEntry w.tree d name flags i w'.tree
            -- a path that leads anywhere, or a symlink that is followed
            | _, _ => w'.tree.root = w.tree.root
  | .openAt _ name _, .error x, w' => w.Refused name x w'
  | .mkdirAt dir name, .ok (), w' =>
      '\x00' ∉ name.toList ∧ w'.held = w.held
        ∧ match w.place dir name with
          | some d => ∃ d' i, ∃ hname : IsComponent name, w.tree.dir? d = some d'
              ∧ d'.entries.get? name = none ∧ w.tree.nodes.get? i = none
              ∧ w'.tree = (w.tree.put d (.dir (d'.insert name hname i))).put i (.dir .empty)
          | none => w'.tree.root = w.tree.root
  | .mkdirAt _ name, .error x, w' => w.Refused name x w'
  | .statAt dir name, .ok kind, w' =>
      '\x00' ∉ name.toList ∧ w' = w
        ∧ ∀ d, w.place dir name = some d → (w.tree.entry d name).bind w.tree.kind? = some kind
  | .statAt _ name, .error x, w' => w.Refused name x w'
  | .unlinkAt dir name, .ok (), w' =>
      '\x00' ∉ name.toList ∧ w'.held = w.held
        ∧ match w.place dir name with
          | some d => ∃ d' i, w.tree.dir? d = some d' ∧ d'.entries.get? name = some i
              ∧ w.tree.kind? i ≠ some .directory
              ∧ w'.tree = w.tree.put d (.dir (d'.remove name))
          | none => w'.tree.root = w.tree.root
  | .unlinkAt _ name, .error x, w' => w.Refused name x w'
  | .listdir fd, .ok names, w' =>
      w' = w ∧ ∀ i, w.inode fd = some i →
        ∃ d, w.tree.dir? i = some d ∧ names.Perm d.entries.keys
  | .listdir _, .error x, w' => w' = w ∧ ∃ errno, x = .osError errno
  | .close fd, .ok (), w' => w' = { w with held := w.held.erase fd }
  | .close fd, .error x, w' =>
      (w' = w ∨ w' = { w with held := w.held.erase fd }) ∧ ∃ errno, x = .osError errno
  | .fdopen fd mode encoding, .ok handle, w' =>
      w' = w ∧ handle.fd = fd ∧ handle.encoding = encoding
        ∧ w.BeginsAtStart fd mode handle.atStart
  -- a failure before the descriptor is wrapped leaves it open, one after closes it
  | .fdopen fd _ _, .error x, w' =>
      (w' = w ∨ w' = { w with held := w.held.erase fd })
        -- what is wrong with the name of an encoding: unknown, a NUL in it, not encodable
        ∧ ((∃ errno, x = .osError errno) ∨ x = .lookupError ∨ x = .valueError ∨ x = .unicodeError)
  | .fstat handle, .ok size, w' =>
      w' = w ∧ ∀ i content, w.inode handle.fd = some i →
        w.tree.nodes.get? i = some (.file content) → size = content.length
  | .fstat _, .error x, w' => w' = w ∧ ∃ errno, x = .osError errno
  | .read handle, .ok text, w' =>
      w' = w ∧ ∀ i content, w.inode handle.fd = some i →
        w.tree.nodes.get? i = some (.file content) → codec.decode handle.encoding content = .ok text
  | .read _, .error x, w' => w' = w ∧ ((∃ errno, x = .osError errno) ∨ x = .unicodeError)
  | .write handle content, .ok count, w' =>
      count = content.length
        ∧ w' = { w with held := w.held.modify handle.fd fun d => { d with
            pending := d.pending ++ codec.stream handle.encoding handle.atStart content } }
  | .write _ _, .error x, w' => w' = w ∧ ((∃ errno, x = .osError errno) ∨ x = .unicodeError)
  | .closeHandle handle, .ok (), w' =>
      w'.held = w.held.erase handle.fd
        ∧ match w.held.get? handle.fd with
          | some d => w'.tree = flushed w.tree d
          | none => w'.tree.root = w.tree.root
  | .closeHandle handle, .error x, w' =>
      w' = { w with held := w.held.erase handle.fd } ∧ ∃ errno, x = .osError errno

/-- What others may do between two calls: anything to the tree but replace its
root, and nothing to the descriptors of the operation. -/
def interferes (w w' : FileWorld) : Prop := w'.tree.root = w.tree.root ∧ w'.held = w.held

end FileWorld

/-- The operating system around an operation of the driver. -/
def operatingSystem (codec : Codec) : Surroundings FileWorld Sys Sys.Result Raised where
  answers := FileWorld.answers codec
  interferes := FileWorld.interferes

/-- A call and its answer. -/
abbrev FileEvent := Event FileWorld Sys Sys.Result Raised

/-- A program that calls on the operating system. -/
abbrev FileProg := Program Sys Sys.Result Raised

end TitoOS
