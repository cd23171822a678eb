import TitoOS.Files.Calls
import TitoOS.Files.Driver

/-!
# Confinement

Whatever path an operation of the driver is given, and whatever others do to
the tree between its calls, it acts only on entries of directories it has
reached from the root by opening one entry after the other, none of them a
symlink (`filesystem_confined`).

What carries the proof is `Holds`: the descriptor the walk has got to refers to
a directory that was reached. Others cannot change that, and each round of the
walk hands it on to the next descriptor.
-/

namespace TitoOS

/-! ## Reached inodes -/

/-- The calls `past` reached the inode: it is the root, or the entry of a reached
directory that was opened by its name and was no symlink. -/
inductive Reached : List FileEvent → Ino → Prop
  | root {past : List FileEvent} {v w : FileWorld} {fd : Fd} :
      w.inode fd = some v.tree.root → Reached (past ++ [⟨v, .openRoot, .ok fd, w⟩]) v.tree.root
  | entry {past : List FileEvent} {v w : FileWorld} {dir : Fd} {name : String}
      {flags : OpenFlags} {fd : Fd} {d i : Ino} :
      Reached past d → v.inode dir = some d → IsComponent name → w.inode fd = some i →
      w.tree.entry d name = some i → w.tree.kind? i ≠ some .symlink →
      Reached (past ++ [⟨v, .openAt dir name flags, .ok fd, w⟩]) i
  | later {past : List FileEvent} {e : FileEvent} {i : Ino} :
      Reached past i → Reached (past ++ [e]) i

/-- A call that stays inside what the calls `past` reached. -/
structure Confined (past : List FileEvent) (e : FileEvent) : Prop where
  /-- A name it is given is a single component, looked up in a reached directory. -/
  named : ∀ dir name, e.op.named? = some (dir, name) →
    IsComponent name ∧ ∃ d, e.before.inode dir = some d ∧ Reached past d
  /-- What it reads, lists, measures or writes through a descriptor was reached. -/
  subject : ∀ fd, e.op.subject? = some fd → ∃ i, e.before.inode fd = some i ∧ Reached past i
  /-- What it opens is the root, or that very entry and not a symlink's target. -/
  opened : ∀ fd i, e.before.inode fd = none → e.after.inode fd = some i →
    (e.op = .openRoot ∧ i = e.before.tree.root)
    ∨ ∃ dir name flags d, e.op = .openAt dir name flags ∧ e.before.inode dir = some d
      ∧ e.after.tree.entry d name = some i ∧ e.after.tree.kind? i ≠ some .symlink
  /-- What it changes was reached, or is an entry of what was. -/
  changed : ∀ i, e.after.tree.nodes.get? i ≠ e.before.tree.nodes.get? i →
    Reached past i ∨ ∃ d name, Reached past d ∧ e.after.tree.entry d name = some i

/-- The descriptor is held, and refers to something that was reached. -/
def Holds (past : List FileEvent) (w : FileWorld) (fd : Fd) : Prop :=
  ∃ i, w.inode fd = some i ∧ Reached past i

/-- The call names single components of reached directories, follows no symlink
and works on held descriptors. -/
def Sys.Proper (past : List FileEvent) (w : FileWorld) : Sys → Prop
  | .openRoot | .close _ => True
  | .openAt dir name flags => flags.nofollow = true ∧ IsComponent name ∧ Holds past w dir
  | .mkdirAt dir name | .statAt dir name | .unlinkAt dir name => IsComponent name ∧ Holds past w dir
  | .listdir fd | .fdopen fd .. => Holds past w fd
  | .fstat handle | .read handle | .write handle _ | .closeHandle handle => Holds past w handle.fd

/-! ## Proper calls are confined -/

variable {codec : Codec} {past : List FileEvent} {v w w' : FileWorld} {fd : Fd}

namespace Holds

/-- Others do not touch the descriptors of the operation. -/
theorem interfered (h : Holds past w fd) (hint : w.interferes v) : Holds past v fd := by
  obtain ⟨i, hi, hreached⟩ := h
  exact ⟨i, by rw [FileWorld.inode, hint.2]; exact hi, hreached⟩

theorem later (h : Holds past w fd) {e : FileEvent} : Holds (past ++ [e]) w fd := by
  obtain ⟨i, hi, hreached⟩ := h
  exact ⟨i, hi, hreached.later⟩

/-- A call that does not close the descriptor leaves it held. -/
theorem after (h : Holds past w fd) (hint : w.interferes v) {op : Sys}
    {answer : Except Raised op.Result} (hans : v.answers codec op answer w')
    (hopen : op.closes? ≠ some fd) : Holds (past ++ [⟨v, op, answer, w'⟩]) w' fd := by
  obtain ⟨i, hi, hreached⟩ := h.interfered hint
  exact ⟨i, hans.inode_kept hi hopen, hreached.later⟩

end Holds

/-- Opening the root reaches it. -/
theorem holds_of_openRoot (h : v.answers codec .openRoot (.ok fd) w') :
    Holds (past ++ [⟨v, .openRoot, .ok fd, w'⟩]) w' fd := by
  obtain ⟨-, -, rfl⟩ := h
  exact ⟨_, by simp [FileWorld.inode], .root (by simp [FileWorld.inode])⟩

/-- Opening an entry properly reaches it. -/
theorem holds_of_openAt {dir : Fd} {name : String} {flags : OpenFlags}
    (hproper : Sys.Proper past v (.openAt dir name flags))
    (h : v.answers codec (.openAt dir name flags) (.ok fd) w') :
    Holds (past ++ [⟨v, .openAt dir name flags, .ok fd, w'⟩]) w' fd ∧ fd ≠ dir := by
  obtain ⟨hflag, hname, d, hd, hreached⟩ := hproper
  obtain ⟨-, hfresh, i, hheld, hopens⟩ := h
  have hplace : v.place dir name = some d := by rw [FileWorld.place, if_pos hname, hd]
  rw [hplace, hflag] at hopens
  have hi : w'.inode fd = some i := by rw [FileWorld.inode, hheld, Dict.get?_set_self]; rfl
  refine ⟨⟨i, hi, .entry hreached hd hname hi hopens.entry_eq hopens.kind_ne⟩, ?_⟩
  rintro rfl
  rw [← FileWorld.inode_eq_none_iff, hd] at hfresh
  cases hfresh

/-- **A proper call changes only what was reached and its entries.** -/
theorem changed_of_proper {op : Sys} {answer : Except Raised op.Result} (hproper : op.Proper past v)
    (h : v.answers codec op answer w') {j : Ino}
    (hj : w'.tree.nodes.get? j ≠ v.tree.nodes.get? j) :
    Reached past j ∨ ∃ d name, Reached past d ∧ w'.tree.entry d name = some j := by
  have hplace : ∀ {dir name}, IsComponent name → ∀ {d}, v.inode dir = some d →
      v.place dir name = some d := fun hname _ hd => by rw [FileWorld.place, if_pos hname, hd]
  cases answer with
  | error x => exact absurd (by rw [h.of_error.1]) hj
  | ok result =>
    cases op with
    | openRoot =>
      obtain ⟨-, -, rfl⟩ := h
      exact absurd rfl hj
    | openAt dir name flags =>
      obtain ⟨hflag, hname, d, hd, hreached⟩ := hproper
      obtain ⟨-, -, i, -, hopens⟩ := h
      rw [hplace hname hd, hflag] at hopens
      rcases hopens.changed hj with rfl | rfl
      · exact .inl hreached
      · exact .inr ⟨d, name, hreached, hopens.entry_eq⟩
    | mkdirAt dir name =>
      obtain ⟨hname, d, hd, hreached⟩ := hproper
      obtain ⟨-, -, hmade⟩ := h
      rw [hplace hname hd] at hmade
      obtain ⟨dir, i, hname, hdir, -, hfresh, htree⟩ := hmade
      have hne : d ≠ i := by
        rintro rfl
        rw [Tree.dir?_eq_some_iff, hfresh] at hdir
        cases hdir
      rw [htree, Tree.get?_put, Tree.get?_put] at hj
      split at hj
      · -- the new directory
        subst j
        refine .inr ⟨d, name, hreached,
          Tree.entry_eq_some_iff.mpr ⟨dir.insert name hname i, ?_, Dict.get?_set_self ..⟩⟩
        rw [htree, Tree.get?_put, if_neg hne, Tree.get?_put, if_pos rfl]
      · split at hj
        · subst j
          exact .inl hreached
        · exact absurd rfl hj
    | unlinkAt dir name =>
      obtain ⟨hname, d, hd, hreached⟩ := hproper
      obtain ⟨-, -, hremoved⟩ := h
      rw [hplace hname hd] at hremoved
      obtain ⟨dir, i, -, -, -, htree⟩ := hremoved
      rw [htree, Tree.get?_put] at hj
      split at hj
      · subst j
        exact .inl hreached
      · exact absurd rfl hj
    | statAt =>
      obtain ⟨-, rfl, -⟩ := h
      exact absurd rfl hj
    | listdir | fstat | read | fdopen =>
      obtain ⟨rfl, -⟩ := h
      exact absurd rfl hj
    | close =>
      obtain rfl := h
      exact absurd rfl hj
    | write =>
      obtain ⟨-, bytes, -, rfl⟩ := h
      exact absurd rfl hj
    | closeHandle handle =>
      obtain ⟨i, hi, hreached⟩ := hproper
      obtain ⟨-, hflush⟩ := h
      obtain ⟨d, hd, rfl⟩ := Option.map_eq_some_iff.mp hi
      simp only [hd] at hflush
      rw [hflush] at hj
      obtain rfl := FileWorld.flushed_changed hj
      exact .inl hreached

/-- **A proper call is confined.** -/
theorem confined_of_proper {op : Sys} {answer : Except Raised op.Result}
    (hproper : op.Proper past v)
    (h : v.answers codec op answer w') : Confined past ⟨v, op, answer, w'⟩ where
  named := by
    intro dir name hop
    cases op with
    | openAt => cases hop; exact hproper.2
    | mkdirAt | statAt | unlinkAt => cases hop; exact hproper
    | _ => cases hop
  subject := by
    intro fd hop
    cases op with
    | listdir | fdopen | fstat | read | write | closeHandle => cases hop; exact hproper
    | _ => cases hop
  opened := by
    intro fd i hnone hi
    have hopens := h.opens_of_new hnone hi
    -- an event that opens nothing leaves the world as it was
    have hno : v ≠ w' := by
      rintro rfl
      rw [hnone] at hi
      cases hi
    cases op with
    | openRoot =>
      cases answer with
      | ok fd' =>
        obtain ⟨-, -, rfl⟩ := h
        exact .inl ⟨rfl, (FileWorld.ino_of_new hnone hi).symm⟩
      | error => exact absurd h.1.symm hno
    | openAt dir name flags =>
      cases answer with
      | ok fd' =>
        obtain ⟨hflag, hname, d, hd, -⟩ := hproper
        obtain ⟨-, -, i', hheld, hopens⟩ := h
        rw [FileWorld.place, if_pos hname, hd, hflag] at hopens
        obtain ⟨tree, held⟩ := w'
        subst hheld
        obtain rfl := FileWorld.ino_of_new hnone hi
        exact .inr ⟨dir, name, flags, d, rfl, hd, hopens.entry_eq, hopens.kind_ne⟩
      | error => exact absurd h.1.symm hno
    | _ => cases hopens
  changed := fun j hj => changed_of_proper hproper h hj

/-! ## Safe programs -/

/-- Every call of the program is confined, and its outcome satisfies `Q`. -/
abbrev Ensures (codec : Codec) {α : Type} (Q : Except Raised α → List FileEvent → FileWorld → Prop)
    (p : FileProg α) (past : List FileEvent) (w : FileWorld) : Prop :=
  p.Guarded (operatingSystem codec) Confined Q past w

/-- Every call of the program is confined. -/
abbrev Safe (codec : Codec) {α : Type} (p : FileProg α) (past : List FileEvent) (w : FileWorld) :
    Prop :=
  Ensures codec (fun _ _ _ => True) p past w

/-- A proper call is still proper after others have interfered. -/
theorem Sys.Proper.interfered {op : Sys} (h : op.Proper past w) (hint : w.interferes v) :
    op.Proper past v := by
  cases op with
  | openRoot | close => trivial
  | openAt => exact ⟨h.1, h.2.1, h.2.2.interfered hint⟩
  | mkdirAt | statAt | unlinkAt => exact ⟨h.1, h.2.interfered hint⟩
  | listdir | fdopen | fstat | read | write | closeHandle => exact Holds.interfered h hint

/-- **The rule of a proper call.** -/
theorem ensures_sys {op : Sys} {Q : Except Raised op.Result → List FileEvent → FileWorld → Prop}
    (hproper : op.Proper past w)
    (hQ : ∀ v answer w', w.interferes v → v.answers codec op answer w' →
      Q answer (past ++ [⟨v, op, answer, w'⟩]) w') :
    Ensures codec Q (sys op) past w :=
  .perform fun v answer w' hint hans =>
    ⟨confined_of_proper (hproper.interfered hint) hans, hQ v answer w' hint hans⟩

namespace Safe

variable {α β : Type} {p : FileProg α}

theorem sys {op : Sys} (h : op.Proper past w) : Safe codec (TitoOS.sys op) past w :=
  ensures_sys h fun _ _ _ _ _ => trivial

theorem bind {f : α → FileProg β} (h : Safe codec p past w)
    (hf : ∀ a past w, Safe codec (f a) past w) : Safe codec (p >>= f) past w := by
  refine Program.Guarded.bind (Program.Guarded.mono h fun outcome past w _ => ?_)
  cases outcome with
  | ok a => exact hf a past w
  | error => trivial

theorem exceptOSError {handler : Errno → FileProg α} (h : Safe codec p past w)
    (hhandler : ∀ exc past w, Safe codec (handler exc) past w) :
    Safe codec (TitoOS.exceptOSError p handler) past w := by
  refine Program.Guarded.catching (Program.Guarded.mono h fun outcome past w _ => ?_)
  cases outcome with
  | ok => trivial
  | error x =>
    cases x with
    | osError exc => exact hhandler exc past w
    | _ => trivial

end Safe

/-- `except OSError`, when the body leaves more than safety behind. -/
theorem Ensures.exceptOSError {α : Type} {p : FileProg α} {handler : Errno → FileProg α}
    {Q : Except Raised α → List FileEvent → FileWorld → Prop}
    (h : Ensures codec (fun outcome past w => match outcome with
      | .error (.osError exc) => Ensures codec Q (handler exc) past w
      | outcome => Q outcome past w) p past w) :
    Ensures codec Q (TitoOS.exceptOSError p handler) past w := by
  refine Program.Guarded.catching (Program.Guarded.mono h fun outcome past w hout => ?_)
  cases outcome with
  | ok => exact hout
  | error x =>
    cases x with
    | osError exc => exact hout
    | _ => exact hout

namespace FileSystemIntegration

variable {self : FileSystemIntegration} {path operation : String}

/-! ## Parts -/

/-- The parts of a path are components. -/
theorem isComponent_of_parts {parts : List String} (h : self.parts path operation = .ok parts)
    {part : String} (hpart : part ∈ parts) : IsComponent part := by
  unfold FileSystemIntegration.parts at h
  simp only at h
  split at h
  · cases h
  · rename_i hrelative
    split at h
    · cases h
    · rename_i hup
      cases h
      obtain ⟨hmem, hkeep⟩ := List.mem_filter.mp hpart
      have hroot : (PurePath.parse path).root = "" := by
        by_contra hne
        simp [hne] at hrelative
      rw [PurePath.parts, if_pos hroot] at hmem
      simp only [decide_eq_true_eq] at hkeep
      refine ⟨hkeep.2, hkeep.1, ?_, PurePath.slash_not_mem_tail hmem⟩
      rintro rfl
      exact hup (List.any_eq_true.mpr ⟨_, hpart, by simp⟩)

theorem isComponent_of_writable {parts : List String}
    (h : self.writable path operation = .ok parts) {part : String} (hpart : part ∈ parts) :
    IsComponent part := by
  unfold writable at h
  split at h
  · cases h
  · exact isComponent_of_parts h hpart

/-! ## The walk -/

theorem describeOserror_safe {exc : Errno} {place : Option (String × Fd)}
    (h : ∀ p ∈ place, IsComponent p.1 ∧ Holds past w p.2) :
    Safe codec (self.describeOserror exc path operation place) past w := by
  refine .bind ?_ fun _ _ _ => trivial
  unfold escaped
  split
  · trivial
  split
  · rename_i part dir
    split
    · exact .exceptOSError (.bind (.sys (h _ rfl)) fun _ _ _ => trivial) fun _ _ _ => trivial
    · trivial
  · trivial

/-- An entry of a held directory, opened without following symlinks, is reached. -/
theorem openAt_ensures {name : String} {flags : OpenFlags} {place : Option (String × Fd)}
    (hflag : flags.nofollow = true) (hname : IsComponent name)
    (hplace : ∀ p ∈ place, p = (name, fd)) (h : Holds past w fd) :
    Ensures codec (fun outcome past w => ∀ nxt, outcome = .ok nxt →
        Holds past w nxt ∧ nxt ≠ fd ∧ Holds past w fd)
      (TitoOS.exceptOSError (TitoOS.sys (.openAt fd name flags)) fun exc => do
        let x ← self.describeOserror exc path operation place
        raising x) past w := by
  refine .exceptOSError (ensures_sys ⟨hflag, hname, h⟩ fun v answer w' hint hans => ?_)
  have hkept := h.after hint hans nofun
  cases answer with
  | ok nxt =>
    intro nxt' hok
    cases hok
    obtain ⟨hnew, hne⟩ := holds_of_openAt ⟨hflag, hname, h.interfered hint⟩ hans
    exact ⟨hnew, hne, hkept⟩
  | error x =>
    cases x with
    | osError exc =>
      have hdescribe : Safe codec (self.describeOserror exc path operation place) _ w' :=
        describeOserror_safe fun p hp => by rw [hplace p hp]; exact ⟨hname, hkept⟩
      refine Program.Guarded.bind (hdescribe.mono fun outcome _ _ _ => ?_)
      cases outcome with
      | ok | error => exact nofun
    | _ => exact nofun

/-- **One round of the walk** hands on a descriptor of what it reached. -/
theorem enter_ensures {create : Bool} {part : String} (hpart : IsComponent part)
    (h : Holds past w fd) :
    Ensures codec (fun outcome past w => ∀ nxt, outcome = .ok nxt →
        Holds past w nxt ∧ nxt ≠ fd ∧ Holds past w fd)
      (self.enter path operation create part fd) past w := by
  have hplace : ∀ p ∈ some (part, fd), p = (part, fd) := fun p hp => (Option.some.inj hp).symm
  unfold enter
  cases create with
  | false => exact openAt_ensures rfl hpart hplace h
  | true =>
    refine Program.Guarded.bind (Ensures.exceptOSError
      (ensures_sys ⟨hpart, h⟩ fun v answer w' hint hans => ?_))
    have hkept := h.after hint hans nofun
    cases answer with
    | ok => exact openAt_ensures rfl hpart hplace hkept
    | error x =>
      cases x with
      | osError exc =>
        simp only
        split
        · exact openAt_ensures rfl hpart hplace hkept
        · exact nofun
      | _ => exact nofun

/-- Raising an exception over a descriptor that is closed is safe, and returns
nothing. -/
theorem close_ensures {α : Type} (x : Raised) (fd : Fd) {R : α → List FileEvent → Prop} :
    Ensures codec (fun outcome past _ => ∀ a, outcome = .ok a → R a past)
      ((raising x : FileProg α).finallyDo (TitoOS.sys (.close fd))) past w := by
  have hclose : Ensures codec (fun _ _ _ => True) (TitoOS.sys (.close fd)) past w :=
    ensures_sys trivial fun _ _ _ _ _ => trivial
  refine Program.Guarded.finallyDo ?_
  show Ensures codec _ (TitoOS.sys (.close fd)) past w
  refine Program.Guarded.mono hclose fun last past w _ => ?_
  cases last with
  | ok | error => exact nofun

/-- **The walk**: along components, it is safe if the block is safe on every
descriptor of what was reached, and what it returns is what the block returned. -/
theorem walkFrom_ensures {α : Type} {create : Bool} {block : Fd → FileProg α}
    {R : α → List FileEvent → Prop} (hlater : ∀ a past e, R a past → R a (past ++ [e]))
    (hblock : ∀ fd past w, Holds past w fd →
      Ensures codec (fun outcome past _ => ∀ a, outcome = .ok a → R a past) (block fd) past w)
    {components : List String} (hcomponents : ∀ part ∈ components, IsComponent part)
    (h : Holds past w fd) :
    Ensures codec (fun outcome past _ => ∀ a, outcome = .ok a → R a past)
      (self.walkFrom path operation create block components fd) past w := by
  induction components generalizing past w fd with
  | nil =>
    refine Program.Guarded.finallyDo (Program.Guarded.mono (hblock fd past w h)
      fun outcome past w hout => ensures_sys trivial fun v answer w' _ _ => ?_)
    cases answer with
    | ok => exact fun a ha => hlater a past _ (hout a ha)
    | error => exact nofun
  | cons part rest ih =>
    refine Program.Guarded.andThen (Program.Guarded.mono
      (enter_ensures (hcomponents part (by simp)) h) fun outcome past w hout => ?_)
    cases outcome with
    | error x => exact close_ensures x fd
    | ok nxt =>
      obtain ⟨hnew, hne, hold⟩ := hout nxt rfl
      refine Program.Guarded.andThen (ensures_sys trivial fun v answer w' hint hans => ?_)
      cases answer with
      | error x => exact close_ensures x fd
      | ok =>
        have hclose : Sys.closes? (.close fd) ≠ some nxt := by
          rintro ⟨⟩
          exact hne rfl
        exact ih (fun part hpart => hcomponents part (by simp [hpart]))
          (hnew.after hint hans hclose)

theorem walk_ensures {α : Type} {create includeLast : Bool} {block : Fd → FileProg α}
    {R : α → List FileEvent → Prop} (hlater : ∀ a past e, R a past → R a (past ++ [e]))
    (hblock : ∀ fd past w, Holds past w fd →
      Ensures codec (fun outcome past _ => ∀ a, outcome = .ok a → R a past) (block fd) past w)
    {parts : List String} (hparts : ∀ part ∈ parts, IsComponent part) :
    Ensures codec (fun outcome past _ => ∀ a, outcome = .ok a → R a past)
      (self.walk parts path operation create includeLast block) past w := by
  have hcomponents : ∀ part ∈ if includeLast then parts else parts.dropLast, IsComponent part := by
    intro part hpart
    split at hpart
    · exact hparts part hpart
    · exact hparts part (List.dropLast_subset _ hpart)
  refine Program.Guarded.bind (ensures_sys trivial fun v answer w' hint hans => ?_)
  cases answer with
  | error => exact nofun
  | ok fd => exact walkFrom_ensures hlater hblock hcomponents (holds_of_openRoot hans)

theorem walk_safe {α : Type} {create includeLast : Bool} {block : Fd → FileProg α}
    (hblock : ∀ fd past w, Holds past w fd → Safe codec (block fd) past w)
    {parts : List String} (hparts : ∀ part ∈ parts, IsComponent part) :
    Safe codec (self.walk parts path operation create includeLast block) past w := by
  refine Program.Guarded.mono (walk_ensures (R := fun _ _ => True) (fun _ _ _ h => h) ?_ hparts)
    fun _ _ _ _ => trivial
  exact fun fd past w h => Program.Guarded.mono (hblock fd past w h) fun _ _ _ _ _ _ => trivial

/-! ## Operations -/

/-- What a pure check lets through can be relied on afterwards. -/
theorem done_safe {α β : Type} {check : Except Raised α} {f : α → FileProg β}
    (hf : ∀ a, check = .ok a → Safe codec (f a) past w) :
    Safe codec (Program.done check >>= f) past w := by
  cases check with
  | error => trivial
  | ok a => exact hf a rfl

/-- A file object stays open while it is measured, read and written. -/
theorem keeping {handle : Handle} (h : Holds past w handle.fd) {op : Sys}
    (hop : op = .fstat handle ∨ op = .read handle ∨ ∃ content, op = .write handle content) :
    Ensures codec (fun _ past w => Holds past w handle.fd) (TitoOS.sys op) past w := by
  rcases hop with rfl | rfl | ⟨content, rfl⟩
  all_goals exact ensures_sys h fun _ _ _ hint hans => h.after hint hans nofun

/-- So the driver may measure a file before it goes on. -/
theorem measuring {α : Type} {handle : Handle} (h : Holds past w handle.fd) {f : Int → FileProg α}
    (hf : ∀ size past w, Holds past w handle.fd →
      Ensures codec (fun _ past w => Holds past w handle.fd) (f size) past w) :
    Ensures codec (fun _ past w => Holds past w handle.fd) (TitoOS.sys (.fstat handle) >>= f)
      past w := by
  refine Program.Guarded.bind ((keeping h (.inl rfl)).mono fun outcome past w h => ?_)
  cases outcome with
  | error => exact h
  | ok size => exact hf size past w h

/-- **Opening a file** is safe if the block is, and leaves the file open. -/
theorem openFile_safe {α : Type} {flags : OpenFlags} {mode encoding : String} {writable : Bool}
    {block : Handle → FileProg α}
    (hblock : ∀ handle past w, Holds past w handle.fd → Ensures codec
      (fun _ past w => Holds past w handle.fd) (block handle) past w) :
    Safe codec (self.openFile path operation flags mode encoding writable block) past w := by
  refine done_safe fun parts hparts => ?_
  have hcomponents : ∀ part ∈ parts, IsComponent part := by
    intro part hpart
    split at hparts
    · exact isComponent_of_writable hparts hpart
    · exact isComponent_of_parts hparts hpart
  cases hlast : parts.getLast? with
  | none => trivial
  | some last =>
    refine walk_safe (fun dir past w hdir => ?_) hcomponents
    have hname := hcomponents last (List.mem_of_getLast? hlast)
    refine Program.Guarded.bind (Program.Guarded.mono
      (openAt_ensures rfl hname (fun p hp => by cases hp) hdir) fun outcome past w hout => ?_)
    cases outcome with
    | error => trivial
    | ok fd =>
      obtain ⟨hfd, -⟩ := hout fd rfl
      -- the descriptor is held until it is wrapped, and by the handle from then on
      refine Program.Guarded.bind (Program.Guarded.catching
        (ensures_sys hfd fun v answer w' hint hans => ?_))
      cases answer with
      | error x =>
        refine Program.Guarded.bind (ensures_sys trivial fun _ closed _ _ _ => ?_)
        cases closed with
        | ok | error => trivial
      | ok handle =>
        obtain ⟨rfl, hwraps, -⟩ := hans
        refine Program.Guarded.finallyDo (Program.Guarded.mono (hblock handle _ _ ?_)
          fun outcome past w hheld => ?_)
        · rw [hwraps]
          exact (hfd.interfered hint).later
        refine Program.Guarded.mono (Safe.sys hheld) fun last _ _ _ => ?_
        cases last with
        | ok | error => trivial

theorem readText_safe {encoding : String} :
    Safe codec (self.readText path encoding) past w := by
  refine .exceptOSError (openFile_safe fun handle past w h => ?_) fun _ _ _ => trivial
  refine measuring h fun size past w h => ?_
  split
  · exact h
  · exact keeping h (.inr (.inl rfl))

theorem writeText_safe {content encoding : String} :
    Safe codec (self.writeText codec path content encoding) past w := by
  refine done_safe fun _ _ => done_safe fun bytes _ => ?_
  split
  · trivial
  · exact .exceptOSError (openFile_safe fun handle past w h =>
      keeping h (.inr (.inr ⟨content, rfl⟩)))
      fun _ _ _ => trivial

theorem appendText_safe {content encoding : String} :
    Safe codec (self.appendText codec path content encoding) past w := by
  refine done_safe fun _ _ => done_safe fun bytes _ => ?_
  split
  · trivial
  · refine .exceptOSError (openFile_safe fun handle past w h => ?_) fun _ _ _ => trivial
    refine measuring h fun size past w h => ?_
    split
    · exact h
    · exact keeping h (.inr (.inr ⟨content, rfl⟩))

theorem listDir_safe : Safe codec (self.listDir path) past w := by
  have hblock : ∀ fd past w, Holds past w fd → Safe codec (TitoOS.sys (.listdir fd)) past w :=
    fun fd past w h => .sys h
  refine done_safe fun parts hparts => .bind ?_ fun _ _ _ => trivial
  exact .exceptOSError (walk_safe hblock fun _ => isComponent_of_parts hparts) fun _ _ _ => trivial

theorem pathExists_safe : Safe codec (self.pathExists path) past w := by
  refine done_safe fun parts hparts => ?_
  cases hlast : parts.getLast? with
  | none => trivial
  | some last =>
    have hname := isComponent_of_parts hparts (List.mem_of_getLast? hlast)
    have hblock : ∀ fd past w, Holds past w fd → Safe codec (TitoOS.sys (.statAt fd last)) past w :=
      fun fd past w h => .sys ⟨hname, h⟩
    refine .bind (.exceptOSError (.bind (walk_safe hblock fun _ => isComponent_of_parts hparts)
      fun _ _ _ => trivial) fun exc _ _ => ?_) fun info _ _ => ?_
    · split <;> trivial
    · cases info with
      | none => trivial
      | some kind =>
        simp only
        split <;> trivial

theorem delete_safe {missingOk : Bool} : Safe codec (self.delete path missingOk) past w := by
  refine done_safe fun parts hparts => ?_
  cases hlast : parts.getLast? with
  | none => trivial
  | some last =>
    have hname := isComponent_of_writable hparts (List.mem_of_getLast? hlast)
    have hblock : ∀ fd past w, Holds past w fd →
        Safe codec (TitoOS.sys (.unlinkAt fd last)) past w :=
      fun fd past w h => .sys ⟨hname, h⟩
    refine .exceptOSError (.bind (walk_safe hblock fun _ => isComponent_of_writable hparts)
      fun _ _ _ => trivial) fun exc _ _ => ?_
    split
    · split <;> trivial
    · trivial

end FileSystemIntegration

/-- **Confinement**: in every execution of every operation of the driver, on
every path and tree, and whatever others do to the tree between any two of its
calls, every call is confined to what the calls before it reached. -/
theorem filesystem_confined (self : FileSystemIntegration) (codec : Codec) (r : FileRequest)
    {w u : FileWorld} {es : List FileEvent} {q : FileProg r.Result}
    (h : Program.Exec (operatingSystem codec) (self.perform codec r) w es q u)
    {past rest : List FileEvent} {e : FileEvent} (hes : es = past ++ e :: rest) :
    Confined past e := by
  have hsafe : Safe codec (self.perform codec r) [] w := by
    cases r with
    | readText => exact FileSystemIntegration.readText_safe
    | writeText => exact FileSystemIntegration.writeText_safe
    | appendText => exact FileSystemIntegration.appendText_safe
    | listDir => exact FileSystemIntegration.listDir_safe
    | pathExists => exact FileSystemIntegration.pathExists_safe
    | delete => exact FileSystemIntegration.delete_safe
  subst hes
  simpa using permits_of_accepted (hsafe.sound h).1

/-! ## A directory swapped for a symlink -/

/-- The `"ascii"` codec. -/
def ascii : Codec where
  encode _ content :=
    if content.toList.all fun c => c.toNat < 128 then
      .ok (content.toList.map fun c => c.toNat.toUInt8)
    else .error .unicodeError
  decode _ bytes :=
    if bytes.all fun b => b < 128 then
      .ok (String.ofList (bytes.map fun b => Char.ofNat b.toNat))
    else .error .unicodeError
  stream _ _ content := content.toList.map fun c => c.toNat.toUInt8
  stream_le := by
    intro encoding content bytes hbytes atStart
    split at hbytes
    · cases hbytes
      exact Nat.le_refl _
    · cases hbytes

/-- A directory with one entry. -/
def Directory.single (name : String) (h : IsComponent name) (i : Ino) : Directory :=
  Directory.empty.insert name h i

/-- A root whose entry `"a"` is the inode `a`; 1 is a directory with a file
`"b"`, and 3 a symlink out of the root. -/
def swapTree (a : Ino) : Tree where
  root := 0
  nodes := Dict.ofList
    [(0, .dir (.single "a" (by decide) a)), (1, .dir (.single "b" (by decide) 2)),
      (2, .file []), (3, .link "/etc")]

/-- The world with that tree and descriptors for the given inodes. -/
def swapWorld (a : Ino) (held : List (Fd × Ino)) : FileWorld where
  tree := swapTree a
  held := Dict.ofList (held.map fun e => (e.1, { ino := e.2 }))

/-- `exists("a/b")`, while another process replaces `a` by a symlink once it has
been opened. -/
def swapEvents : List FileEvent :=
  [⟨swapWorld 1 [], .openRoot, .ok 3, swapWorld 1 [(3, 0)]⟩,
   ⟨swapWorld 1 [(3, 0)], .openAt 3 "a" { directory := true, nofollow := true }, .ok 4,
    swapWorld 1 [(3, 0), (4, 1)]⟩,
   ⟨swapWorld 3 [(3, 0), (4, 1)], .close 3, .ok (), swapWorld 3 [(4, 1)]⟩,
   ⟨swapWorld 3 [(4, 1)], .statAt 4 "b", .ok .regular, swapWorld 3 [(4, 1)]⟩,
   ⟨swapWorld 3 [(4, 1)], .close 4, .ok (), swapWorld 3 []⟩]

/-- A driver on some directory. -/
def sandbox : FileSystemIntegration := { root := "/srv" }

theorem swapEvents_exec :
    Program.Exec (operatingSystem ascii) (sandbox.perform ascii (.pathExists "a/b"))
      (swapWorld 1 []) swapEvents (.ret true) (swapWorld 3 []) := by
  have hparts : sandbox.parts "a/b" "exists" = .ok ["a", "b"] := by decide
  show Program.Exec _ (sandbox.pathExists "a/b") _ _ _ _
  unfold FileSystemIntegration.pathExists
  rw [hparts]
  have hopens : FileWorld.OpensEntry (swapTree 1) 0 "a" { directory := true, nofollow := true } 1
      (swapTree 1) := .existing rfl rfl nofun fun _ => rfl
  refine .call ⟨rfl, rfl⟩ ⟨rfl, by decide, rfl⟩
    (.call ⟨rfl, rfl⟩ ⟨by decide, by decide, 1, rfl, hopens⟩
    (.call ⟨rfl, rfl⟩ rfl (.call ⟨rfl, rfl⟩ ⟨by decide, rfl, ?_⟩ (.call ⟨rfl, rfl⟩ rfl .stop))))
  rintro d ⟨⟩
  rfl

/-- The file is looked up in the directory that was opened, not behind the
symlink. -/
theorem filesystem_confined_swapped :
    Confined (swapEvents.take 3)
      ⟨swapWorld 3 [(4, 1)], .statAt 4 "b", .ok .regular, swapWorld 3 [(4, 1)]⟩ :=
  filesystem_confined sandbox ascii (.pathExists "a/b") swapEvents_exec rfl

end TitoOS
