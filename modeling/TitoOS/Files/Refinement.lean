import TitoOS.Files.Opening
import TitoOS.Lib.Transition

/-!
# The driver as a store

Operations of `FileSystemIntegration` that nobody else interferes with, as
operations on the store the tree stands for (`Tree.contents`). What an operation
returns is what that store holds, and what it changes is the store at its own
path (`perform_refines`); so that along any run of operations a file holds what
was last written to it and appended since (`files_hold_what_was_written`).
-/

namespace TitoOS

section Files

variable {codec : Codec} {t₀ : Tree} {create : Bool} {p : List String} {fd : Fd} {w : FileWorld}
  {self : FileSystemIntegration} {path operation : String} {flags : OpenFlags}

/-! ## The operations -/

/-- Nothing is said of the value of an operation that raises. -/
theorem no_value {α : Type} {x : Raised} {P : α → Prop} (a : α)
    (h : Except.error x = Except.ok a) : P a := by
  cases h

section FileAt

variable {content : List UInt8} {d : Descriptor}

theorem FileAt.node (h : FileAt t₀ p content d fd w) :
    w.tree.nodes.get? d.ino = some (.file content) := by
  obtain ⟨node, hnode, hcontent⟩ := Option.bind_eq_some_iff.mp h.content_eq
  cases node with
  | dir | link => cases hcontent
  | file => rw [hnode, Option.some.inj hcontent]

/-- A file object that nothing was written to changes nothing when it is closed. -/
theorem FileAt.flushed_nothing (h : FileAt t₀ p content d fd w) (hpending : d.pending = []) :
    FileWorld.flushed w.tree d = w.tree := by
  have hsame : (if d.append then content ++ d.pending
      else d.pending ++ content.drop d.pending.length) = content := by
    rw [hpending]
    cases d.append with
    | true => exact List.append_nil content
    | false => rfl
  have hput : w.tree.put d.ino (.file content) = w.tree := by
    rw [Tree.put, Dict.set_of_get? h.node]
  rw [FileWorld.flushed, h.node]
  simp only [hsame, hput]

/-- One that something was written to has it in the file afterwards. -/
theorem FileAt.flushed (h : FileAt t₀ p content d fd w) {bytes : List UInt8}
    (hpending : d.pending = bytes) {new : List UInt8}
    (hnew : new = if d.append then content ++ bytes else bytes ++ content.drop bytes.length) :
    Near t₀ p (FileWorld.flushed w.tree d)
      ∧ (FileWorld.flushed w.tree d).contents p = some new := by
  have htree : FileWorld.flushed w.tree d = w.tree.put d.ino (.file new) := by
    rw [FileWorld.flushed, h.node]
    simp only [hpending, hnew]
  have hdir := Tree.dir?_of_content h.content_eq
  have hcontents := Tree.contents_put_file h.shaped h.at_path hdir new
  rw [htree]
  refine ⟨⟨h.shaped.put_file hdir new, fun q hq => ?_⟩, ?_⟩
  · rw [hcontents, Function.update_of_ne hq]
    exact h.others q hq
  · rw [hcontents, Function.update_self]

end FileAt

/-- A read gives what the file holds, and changes nothing. -/
def ReadsBack (codec : Codec) (self : FileSystemIntegration) (path encoding : String) (t₀ : Tree)
    (outcome : Except Raised String) (t : Tree) : Prop :=
  t = t₀ ∧ ∀ text, outcome = .ok text → ∃ p content, self.parts? path = some p
    ∧ t₀.contents p = some content ∧ codec.decode encoding content = .ok text

theorem readText_yields {encoding : String} (hshaped : t₀.Shaped) (hw : w.tree = t₀) :
    Yields codec (self.readText path encoding) w fun outcome w =>
      ReadsBack codec self path encoding t₀ outcome w.tree := by
  refine .exceptOSError ((openFile_yields (Q := ReadsBack codec self path encoding t₀) hshaped hw
    (fun _ _ _ h => ⟨h.1, no_value⟩) (fun _ _ h => ⟨h.same rfl, no_value⟩)
    (fun _ _ _ _ _ hsame => ⟨hsame rfl (by rfl) (by rfl), no_value⟩)
    fun p hp i handle w hwraps _ hfile hfound => ?_).mono fun outcome w hout => ?_)
  · obtain ⟨htree, hsome⟩ := hfound rfl rfl rfl
    obtain ⟨content, hcontent⟩ := Option.isSome_iff_exists.mp hsome
    have hdefault : (t₀.contents p).getD [] = content := by rw [hcontent, Option.getD_some]
    have hfile : FileAt t₀ p content { ino := i } handle.fd w := hdefault ▸ hfile
    -- whatever comes of the block, the file stays as it was until the handle is closed
    have hleaves : ∀ outcome,
        (∀ text, outcome = .ok text → codec.decode encoding content = .ok text) →
        LeavesOpen (ReadsBack codec self path encoding t₀) handle.fd outcome w :=
      fun outcome hout => ⟨_, hfile.held, ⟨(hfile.flushed_nothing rfl).trans htree,
        fun text htext => ⟨p, content, hp, hcontent, hout text htext⟩⟩, fun x => ⟨htree, no_value⟩⟩
    refine .bind (.sys fun answer w' hans _ => ?_)
    cases answer with
    | error x =>
      obtain ⟨rfl, -⟩ := hans
      exact hleaves _ no_value
    | ok size =>
      obtain ⟨rfl, -⟩ := hans
      by_cases hlarge : size > self.maxBytes
      · simp only [if_pos hlarge]
        exact .raising (hleaves _ no_value)
      · simp only [if_neg hlarge]
        refine .sys fun answer w' hans _ => ?_
        cases answer with
        | error x =>
          obtain ⟨rfl, -⟩ := hans
          exact hleaves _ no_value
        | ok text =>
          obtain ⟨rfl, htext⟩ := hans
          refine hleaves _ fun text' htext' => ?_
          cases htext'
          rw [← hwraps.encoding_eq]
          exact htext i content (by rw [FileWorld.inode, hfile.held]; rfl) hfile.node
  · cases outcome with
    | ok => exact hout
    | error x =>
      cases x with
      | osError => exact .raising ⟨hout.1, no_value⟩
      | _ => exact hout

/-- The store is the one of `t₀`, except perhaps at the path of the operation. -/
structure Spares (driver : FileSystemIntegration) (path : String) (t₀ t : Tree) : Prop where
  shaped : t.Shaped
  others : ∀ q, driver.parts? path ≠ some q → t.contents q = t₀.contents q

theorem Near.spares {t : Tree} (h : Near t₀ p t) (hp : self.parts? path = some p) :
    Spares self path t₀ t :=
  ⟨h.shaped, fun q hq => h.others q fun heq => hq (heq ▸ hp)⟩

theorem Kept.spares (h : Kept t₀ create w) : Spares self path t₀ w.tree :=
  ⟨h.shaped, fun q _ => congrFun h.contents q⟩

/-- What is in a file after `stream` was written over what was there. -/
def replacing (stream : Bool → List UInt8) (_ : Option (List UInt8)) : List UInt8 := stream true

/-- What is in a file after `stream` was written behind what was there. -/
def appending (stream : Bool → List UInt8) (old : Option (List UInt8)) : List UInt8 :=
  old.getD [] ++ stream (old.getD []).isEmpty

/-- A write that returns leaves in the file what `new` makes of what the text
stream writes and of the bytes that were there. -/
def WritesBack (codec : Codec) (self : FileSystemIntegration) (path content encoding : String)
    (new : (Bool → List UInt8) → Option (List UInt8) → List UInt8) (t₀ : Tree)
    (outcome : Except Raised Int) (t : Tree) : Prop :=
  Spares self path t₀ t ∧ ∀ n, outcome = .ok n → n = content.length
    ∧ ∃ p, self.parts? path = some p
      ∧ t.contents p = some (new (codec.stream encoding · content) (t₀.contents p))

theorem FileAt.inode {content : List UInt8} {d : Descriptor} (h : FileAt t₀ p content d fd w) :
    w.inode fd = some d.ino := by
  rw [FileWorld.inode, h.held, Option.map_some]

/-- Where a file object over a file begins. -/
theorem Wraps.atStart_eq {mode encoding : String} {handle : Handle} {content : List UInt8}
    {d : Descriptor} (h : Wraps mode encoding handle w)
    (hfile : FileAt t₀ p content d handle.fd w) :
    handle.atStart = (mode != "a" || content.isEmpty) :=
  h.begins d.ino content hfile.inode hfile.node

/-- What a handle over the file at `p` writes is there when it is closed. -/
theorem write_yields {content encoding : String} {handle : Handle}
    {new : (Bool → List UInt8) → Option (List UInt8) → List UInt8} {base : List UInt8}
    {d : Descriptor} (hp : self.parts? path = some p) (hpending : d.pending = [])
    (hencoding : handle.encoding = encoding) (hfile : FileAt t₀ p base d handle.fd w)
    (hnew : ∀ stream : Bool → List UInt8, new stream (t₀.contents p)
      = if d.append then base ++ stream handle.atStart
        else stream handle.atStart ++ base.drop (stream handle.atStart).length) :
    Yields codec (sys (.write handle content)) w
      (LeavesOpen (WritesBack codec self path content encoding new t₀) handle.fd) := by
  have hspares : Spares self path t₀ w.tree := hfile.toNear.spares hp
  refine .sys fun answer w' hans _ => ?_
  cases answer with
  | error x =>
    obtain ⟨rfl, -⟩ := hans
    refine ⟨d, hfile.held, ⟨?_, no_value⟩, fun x => ⟨hspares, no_value⟩⟩
    rw [hfile.flushed_nothing hpending]
    exact hspares
  | ok count =>
    obtain ⟨hcount, rfl⟩ := hans
    rw [hencoding]
    generalize hbytes : codec.stream encoding handle.atStart content = bytes
    have hheld : ({ w with held := w.held.modify handle.fd fun d =>
        { d with pending := d.pending ++ bytes } } : FileWorld).held.get? handle.fd
        = some { d with pending := d.pending ++ bytes } := by
      rw [Dict.get?_modify_self, hfile.held, Option.map_some]
    have hfile' : FileAt t₀ p base { d with pending := d.pending ++ bytes } handle.fd
        { w with held := w.held.modify handle.fd fun d =>
          { d with pending := d.pending ++ bytes } } :=
      ⟨hfile.toNear, hheld, hfile.at_path, hfile.content_eq⟩
    obtain ⟨hnear, hcontents⟩ := hfile'.flushed (by simp [hpending])
      (hbytes ▸ hnew fun atStart => codec.stream encoding atStart content)
    refine ⟨_, hheld, ⟨hnear.spares hp, fun n hn => ?_⟩, fun x => ⟨hspares, no_value⟩⟩
    cases hn
    exact ⟨hcount, p, hp, hcontents⟩

/-- What `_open` for writing asks of its block. -/
theorem openWriting_yields {mode content encoding : String}
    {new : (Bool → List UInt8) → Option (List UInt8) → List UInt8}
    {block : Handle → FileProg Int} (hshaped : t₀.Shaped) (hw : w.tree = t₀)
    (hblock : ∀ p, self.parts? path = some p → ∀ d handle w, d.append = flags.append →
      d.pending = [] → Wraps mode encoding handle w →
      FileAt t₀ p (if flags.truncate then [] else (t₀.contents p).getD []) d handle.fd w →
      Yields codec (block handle) w
        (LeavesOpen (WritesBack codec self path content encoding new t₀) handle.fd)) :
    Yields codec (self.openFile path operation flags mode encoding true block) w
      fun outcome w => WritesBack codec self path content encoding new t₀ outcome w.tree :=
  openFile_yields (Q := WritesBack codec self path content encoding new t₀) hshaped hw
    (fun _ _ _ h => ⟨h.1, no_value⟩) (fun _ _ h => ⟨h.spares, no_value⟩)
    (fun _ hp _ _ h _ => ⟨h.spares hp, no_value⟩)
    fun p hp i handle w hwraps _ hfile _ =>
      hblock p hp { ino := i, append := flags.append } handle w rfl rfl hwraps hfile

/-- What is wrapped in an exception of the driver keeps what was written. -/
theorem wrapped_yields {content encoding : String}
    {new : (Bool → List UInt8) → Option (List UInt8) → List UInt8} {prog : FileProg Int}
    {x : Errno → Raised}
    (h : Yields codec prog w fun outcome w =>
      WritesBack codec self path content encoding new t₀ outcome w.tree) :
    Yields codec (exceptOSError prog fun exc => raising (x exc)) w fun outcome w =>
      WritesBack codec self path content encoding new t₀ outcome w.tree :=
  .exceptOSError (h.mono fun outcome w hout => by
    cases outcome with
    | ok => exact hout
    | error y =>
      cases y with
      | osError => exact .raising ⟨hout.1, no_value⟩
      | _ => exact hout)

theorem writeText_yields {content encoding : String} (hshaped : t₀.Shaped) (hw : w.tree = t₀) :
    Yields codec (self.writeText codec path content encoding) w fun outcome w =>
      WritesBack codec self path content encoding replacing t₀ outcome w.tree := by
  have hstart : Spares self path t₀ w.tree := ⟨hw ▸ hshaped, fun _ _ => by rw [hw]⟩
  refine .done (fun _ _ => .done (fun bytes _ => ?_) fun x _ => ⟨hstart, no_value⟩)
    fun x _ => ⟨hstart, no_value⟩
  split
  · exact .raising ⟨hstart, no_value⟩
  · refine wrapped_yields (openWriting_yields hshaped hw
      fun p hp d handle w happend hpending hwraps hfile => ?_)
    refine write_yields hp hpending hwraps.encoding_eq hfile fun stream => ?_
    have hstart : handle.atStart = true := hwraps.atStart_eq hfile
    rw [happend, hstart]
    simp [replacing]

theorem appendText_yields {content encoding : String} (hshaped : t₀.Shaped) (hw : w.tree = t₀) :
    Yields codec (self.appendText codec path content encoding) w fun outcome w =>
      WritesBack codec self path content encoding appending t₀ outcome w.tree := by
  have hstart : Spares self path t₀ w.tree := ⟨hw ▸ hshaped, fun _ _ => by rw [hw]⟩
  refine .done (fun _ _ => .done (fun addition _ => ?_) fun x _ => ⟨hstart, no_value⟩)
    fun x _ => ⟨hstart, no_value⟩
  split
  · exact .raising ⟨hstart, no_value⟩
  · refine wrapped_yields (openWriting_yields hshaped hw
      fun p hp d handle w happend hpending hwraps hfile => ?_)
    have hspares : Spares self path t₀ w.tree := hfile.toNear.spares hp
    have hleaves : ∀ x, LeavesOpen (WritesBack codec self path content encoding appending t₀)
        handle.fd (.error x) w := fun x =>
      ⟨d, hfile.held, ⟨by rw [hfile.flushed_nothing hpending]; exact hspares, no_value⟩,
        fun _ => ⟨hspares, no_value⟩⟩
    refine .bind (.sys fun answer w' hans _ => ?_)
    cases answer with
    | error x =>
      obtain ⟨rfl, -⟩ := hans
      exact hleaves x
    | ok size =>
      obtain ⟨rfl, -⟩ := hans
      by_cases hlarge : size + addition.length > self.maxBytes
      · simp only [if_pos hlarge]
        exact .raising (hleaves _)
      · simp only [if_neg hlarge]
        refine write_yields hp hpending hwraps.encoding_eq hfile fun stream => ?_
        have hstart : handle.atStart = ((t₀.contents p).getD []).isEmpty := hwraps.atStart_eq hfile
        rw [happend, hstart]
        rfl

theorem listDir_yields (hshaped : t₀.Shaped) (hw : w.tree = t₀) :
    Yields codec (self.listDir path) w fun _ w => w.tree = t₀ := by
  refine .done (fun parts hparts => .bind (.exceptOSError ((walk_yields
    (Q := fun _ t => t = t₀) ⟨fun _ _ _ _ h => h, fun _ _ h _ => h.same rfl⟩ hshaped hw
    (fun _ => FileSystemIntegration.isComponent_of_parts hparts) rfl fun fd w h => ?_).mono
    fun outcome w htree => ?_))) fun _ _ => hw
  · refine .sys fun answer w' hans _ => ?_
    have hsame : w' = w := by
      cases answer with
      | ok | error => exact hans.1
    rw [hsame]
    exact h.same rfl
  · cases outcome with
    | ok => exact .ret htree
    | error x =>
      cases x with
      | osError => exact .raising htree
      | _ => exact htree

theorem lookup_concat_of_stands {last : String} {d : Ino} (h : Stands t₀ create p fd w)
    (hd : w.inode fd = some d) : w.tree.lookup (p ++ [last]) = w.tree.entry d last := by
  obtain ⟨d', hd', hp⟩ := h.at_path
  obtain rfl : d' = d := Option.some.inj (hd'.symm.trans hd)
  rw [Tree.lookup_concat, hp, Option.bind_some]

/-- `stat` finds what is there. -/
def Stats (t₀ : Tree) (p : List String) (outcome : Except Raised FileKind) (t : Tree) : Prop :=
  t = t₀ ∧ match outcome with
    | .ok _ => (t₀.lookup p).isSome = true
    | .error x => x.isMissing = true → t₀.lookup p = none

theorem statAt_yields {last : String} (hlast : IsComponent last) (h : Stands t₀ false p fd w) :
    Yields codec (sys (.statAt fd last)) w fun outcome w =>
      Stats t₀ (p ++ [last]) outcome w.tree := by
  obtain ⟨d, hd, -⟩ := h.at_path
  have hat : w.tree.lookup (p ++ [last]) = w.tree.entry d last := lookup_concat_of_stands h hd
  have htree := h.same rfl
  refine .sys fun answer w' hans hdoc => ?_
  cases answer with
  | ok kind =>
    obtain ⟨-, rfl, hkind⟩ := hans
    refine ⟨htree, ?_⟩
    obtain ⟨i, hi, -⟩ := Option.bind_eq_some_iff.mp (hkind d (place_eq hlast hd))
    show (t₀.lookup (p ++ [last])).isSome = true
    rw [← htree, hat, hi]
    rfl
  | error x =>
    obtain ⟨rfl, -⟩ := hans
    refine ⟨htree, fun hmissing => ?_⟩
    rw [← htree, hat]
    exact hdoc hmissing d (place_eq hlast hd)

theorem pathExists_yields (hshaped : t₀.Shaped) (hw : w.tree = t₀) :
    Yields codec (self.pathExists path) w fun outcome w => w.tree = t₀
      ∧ ∀ b, outcome = .ok b → ∃ p, self.parts? path = some p
        ∧ (b = true ↔ (t₀.lookup p).isSome = true) := by
  refine .done (fun p hparts => ?_) fun _ _ => ⟨hw, no_value⟩
  have hp : self.parts? path = some p := by
    rcases parts_cases self path "exists" with ⟨p', hp', hok⟩ | ⟨-, x, hx, -⟩
    · rw [hp', Except.ok.inj (hok.symm.trans hparts)]
    · cases hx.symm.trans hparts
  cases hlast : p.getLast? with
  | none =>
    -- the root itself
    obtain rfl := List.getLast?_eq_none_iff.mp hlast
    refine .ret ⟨hw, fun b hb => ⟨[], hp, ?_⟩⟩
    cases hb
    exact ⟨fun _ => rfl, fun _ => rfl⟩
  | some last =>
    have hcomponents := isComponent_of_parts? hp
    have hsplit : p.dropLast ++ [last] = p := List.dropLast_append_getLast? last hlast
    refine .bind (.exceptOSError (.bind ((walk_yields (Q := Stats t₀ p) ⟨?_, ?_⟩ hshaped hw
      hcomponents rfl fun fd w (h : Stands t₀ false p.dropLast fd w) => ?_).mono
        fun outcome w hout => ?_)))
    · exact fun outcome x t hx hout =>
        ⟨hout.1, fun hmissing => by rw [hx] at hmissing; cases hmissing⟩
    · refine fun x w h hbelow => ⟨h.same rfl, fun hmissing => ?_⟩
      rw [← hsplit]
      exact hbelow rfl hmissing last []
    · rw [← hsplit]
      exact statAt_yields (hcomponents last (List.mem_of_getLast? hlast)) h
    · obtain ⟨htree, hout⟩ := hout
      cases outcome with
      | ok kind =>
        refine .ret ?_
        by_cases hlink : kind = .symlink
        · simp only [if_pos hlink]
          exact .raising ⟨htree, no_value⟩
        · simp only [if_neg hlink]
          exact .ret ⟨htree, fun b hb => ⟨p, hp, by cases hb; simpa using hout⟩⟩
      | error x =>
        cases x with
        | osError exc =>
          by_cases hmissing : exc = .ENOENT ∨ exc = .ENOTDIR
          · simp only [if_pos hmissing]
            -- something on the way is missing or no directory, so nothing is there
            have hnone : t₀.lookup p = none := hout (by rcases hmissing with rfl | rfl <;> rfl)
            exact .ret (.ret ⟨htree, fun b hb => ⟨p, hp, by cases hb; simp [hnone]⟩⟩)
          · simp only [if_neg hmissing]
            exact .raising ⟨htree, no_value⟩
        | _ => exact ⟨htree, no_value⟩

/-- `unlink` takes out what is there. -/
def Unlinks (t₀ : Tree) (p : List String) (outcome : Except Raised Unit) (t : Tree) : Prop :=
  Near t₀ p t ∧ match outcome with
    | .ok () => t.contents p = none ∧ (t₀.lookup p).isSome = true
    | .error x => x.isMissing = true → t = t₀ ∧ t₀.lookup p = none

theorem unlinkAt_yields {last : String} (hlast : IsComponent last) (h : Stands t₀ false p fd w) :
    Yields codec (sys (.unlinkAt fd last)) w fun outcome w =>
      Unlinks t₀ (p ++ [last]) outcome w.tree := by
  obtain ⟨d, hd, hp⟩ := h.at_path
  have hat : w.tree.lookup (p ++ [last]) = w.tree.entry d last := lookup_concat_of_stands h hd
  have htree := h.same rfl
  refine .sys fun answer w' hans hdoc => ?_
  cases answer with
  | ok =>
    obtain ⟨-, -, hremoved⟩ := hans
    rw [place_eq hlast hd] at hremoved
    obtain ⟨dir, i, hdir, hi, hkind, hw'⟩ := hremoved
    have hdrop : w'.tree = w.tree.drop d dir last := hw'
    have hentry : w.tree.entry d last = some i := by rw [Tree.entry, hdir]; exact hi
    have hnodir : w.tree.dir? i = none := by
      cases hnode : w.tree.dir? i with
      | none => rfl
      | some dir' => exact absurd (by rw [Tree.kind?, Tree.dir?_eq_some_iff.mp hnode]; rfl) hkind
    have hcontents := Tree.contents_drop h.shaped hdir hentry hnodir hp
    refine ⟨⟨?_, fun q hq => ?_⟩, ?_, ?_⟩
    · rw [hdrop]
      exact h.shaped.drop hdir
    · rw [hdrop, hcontents, Function.update_of_ne hq]
      exact congrFun h.contents q
    · rw [hdrop, hcontents, Function.update_self]
    · rw [← htree, hat, hentry]
      rfl
  | error x =>
    obtain ⟨rfl, -⟩ := hans
    refine ⟨h.near _, fun hmissing => ⟨htree, ?_⟩⟩
    rw [← htree, hat]
    exact hdoc hmissing d (place_eq hlast hd)

theorem delete_yields {missingOk : Bool} (hshaped : t₀.Shaped) (hw : w.tree = t₀) :
    Yields codec (self.delete path missingOk) w fun outcome w => Spares self path t₀ w.tree
      ∧ ∀ b, outcome = .ok b → ∃ p, self.parts? path = some p ∧ w.tree.contents p = none
        ∧ (b = true ↔ (t₀.lookup p).isSome = true) ∧ (b = false → w.tree = t₀) := by
  have hstart : Spares self path t₀ w.tree := ⟨hw ▸ hshaped, fun _ _ => by rw [hw]⟩
  refine .done (fun p hparts => ?_) fun _ _ => ⟨hstart, no_value⟩
  have hp : self.parts? path = some p := by
    rcases writable_cases self path "delete" with ⟨p', hp', hok⟩ | ⟨x, hx, -⟩
    · rw [hp', Except.ok.inj (hok.symm.trans hparts)]
    · cases hx.symm.trans hparts
  cases hlast : p.getLast? with
  | none => exact .raising ⟨hstart, no_value⟩
  | some last =>
    have hcomponents := isComponent_of_parts? hp
    have hsplit : p.dropLast ++ [last] = p := List.dropLast_append_getLast? last hlast
    refine .exceptOSError (.bind ((walk_yields (Q := Unlinks t₀ p) ⟨?_, ?_⟩ hshaped hw
      hcomponents rfl fun fd w (h : Stands t₀ false p.dropLast fd w) => ?_).mono
        fun outcome w hout => ?_))
    · exact fun outcome x t hx hout =>
        ⟨hout.1, fun hmissing => by rw [hx] at hmissing; cases hmissing⟩
    · refine fun x w h hbelow => ⟨h.near p, fun hmissing => ⟨h.same rfl, ?_⟩⟩
      rw [← hsplit]
      exact hbelow rfl hmissing last []
    · rw [← hsplit]
      exact unlinkAt_yields (hcomponents last (List.mem_of_getLast? hlast)) h
    · obtain ⟨hnear, hout⟩ := hout
      have hspares : Spares self path t₀ w.tree := hnear.spares hp
      cases outcome with
      | ok =>
        obtain ⟨hgone, hsome⟩ := hout
        exact .ret ⟨hspares, fun b hb => by
          cases hb
          exact ⟨p, hp, hgone, by simp [hsome], fun h => by cases h⟩⟩
      | error x =>
        cases x with
        | osError exc =>
          by_cases hmissing : exc = .ENOENT ∨ exc = .ENOTDIR
          -- something on the way is missing or no directory, so there is no such file
          · obtain ⟨htree, hnone⟩ := hout (by rcases hmissing with rfl | rfl <;> rfl)
            simp only [if_pos hmissing]
            split
            · refine .ret ⟨hspares, fun b hb => ?_⟩
              cases hb
              exact ⟨p, hp, by rw [htree, Tree.contents, hnone]; rfl, by simp [hnone],
                fun _ => htree⟩
            · exact .raising ⟨hspares, no_value⟩
          · simp only [if_neg hmissing]
            exact .raising ⟨hspares, no_value⟩
        | _ => exact ⟨hspares, no_value⟩

end Files

/-! ## Runs of operations -/

section Runs

variable (codec : Codec) (self : FileSystemIntegration)

/-- What an operation does to the store of `t`, and what it says about it. -/
def Performs (t t' : Tree) : (r : FileRequest) → Except Raised r.Result → Prop
  | .readText path encoding, outcome => ReadsBack codec self path encoding t outcome t'
  | .writeText path content encoding, outcome =>
    WritesBack codec self path content encoding replacing t outcome t'
  | .appendText path content encoding, outcome =>
    WritesBack codec self path content encoding appending t outcome t'
  | .listDir _, _ => t' = t
  | .pathExists path, outcome => t' = t ∧ ∀ b, outcome = .ok b → ∃ p, self.parts? path = some p
      ∧ (b = true ↔ (t.lookup p).isSome = true)
  | .delete path _, outcome => Spares self path t t' ∧ ∀ b, outcome = .ok b →
      ∃ p, self.parts? path = some p ∧ t'.contents p = none
        ∧ (b = true ↔ (t.lookup p).isSome = true) ∧ (b = false → t' = t)

/-- An operation, and how it ended. -/
structure FileCall where
  request : FileRequest
  outcome : Except Raised request.Result

/-- The driver performs an operation, alone. -/
def Serves (w : FileWorld) (c : FileCall) (w' : FileWorld) : Prop :=
  ∃ es, Program.Exec (alone codec) (self.perform codec c.request) w es (.done c.outcome) w'

/-- The path an operation is about. -/
def FileRequest.path : FileRequest → String
  | readText path _ | writeText path _ _ | appendText path _ _ | listDir path | pathExists path
  | delete path _ => path

/-- What is known of the file after a call that is about it, given what was known
before: nothing, that there is none, or its content. -/
def FileCall.learnt (known : Option (Option (List UInt8))) :
    FileCall → Option (Option (List UInt8))
  | ⟨.writeText _ content encoding, .ok _⟩ =>
    some (some (replacing (codec.stream encoding · content) none))
  | ⟨.appendText _ content encoding, .ok _⟩ =>
    known.map fun old => some (appending (codec.stream encoding · content) old)
  | ⟨.delete _ _, .ok _⟩ | ⟨.pathExists _, .ok false⟩ => some none
  | ⟨.writeText .., .error _⟩ | ⟨.appendText .., .error _⟩ | ⟨.delete .., .error _⟩ => none
  | ⟨.readText .., _⟩ | ⟨.listDir _, _⟩ | ⟨.pathExists _, _⟩ => known

/-- What is known of all files. -/
def learn (known : List String → Option (Option (List UInt8))) (c : FileCall) :
    List String → Option (Option (List UInt8)) :=
  match self.parts? c.request.path with
  | some p => Function.update known p (c.learnt codec (known p))
  | none => known

variable {codec self}

/-- What is known of the files of the tree is so. -/
def Agrees (known : List String → Option (Option (List UInt8))) (t : Tree) : Prop :=
  ∀ p content, known p = some content → t.contents p = content

theorem agrees_contents (t : Tree) : Agrees (fun p => some (t.contents p)) t :=
  fun _ _ h => Option.some.inj h

theorem Performs.others {t t' : Tree} {r : FileRequest} {outcome : Except Raised r.Result}
    (h : Performs codec self t t' r outcome) {q : List String} (hq : self.parts? r.path ≠ some q) :
    t'.contents q = t.contents q := by
  cases r with
  | readText | pathExists => rw [h.1]
  | listDir => rw [show t' = t from h]
  | writeText | appendText | delete => exact h.1.others q hq

theorem Performs.learnt {t t' : Tree} {r : FileRequest} {outcome : Except Raised r.Result}
    (h : Performs codec self t t' r outcome) {p : List String} (hp : self.parts? r.path = some p)
    {known : Option (Option (List UInt8))}
    (hknown : ∀ content, known = some content → t.contents p = content)
    {content : Option (List UInt8)}
    (hlearnt : FileCall.learnt codec known ⟨r, outcome⟩ = some content) :
    t'.contents p = content := by
  have path_eq : ∀ {p'}, self.parts? r.path = some p' → p' = p := fun hp' =>
    Option.some.inj (hp'.symm.trans hp)
  cases r with
  | readText path encoding =>
    rw [h.1]
    exact hknown content hlearnt
  | listDir path =>
    rw [show t' = t from h]
    exact hknown content hlearnt
  | pathExists path =>
    -- that nothing is there says that no file is, but what is there may be a directory
    rw [h.1]
    cases outcome with
    | error => exact hknown content hlearnt
    | ok b =>
      cases b with
      | true => exact hknown content hlearnt
      | false =>
        obtain ⟨p', hp', hb⟩ := h.2 false rfl
        obtain rfl := path_eq hp'
        cases hlearnt
        have hnone : t.lookup p' = none := by simpa using hb
        rw [Tree.contents, hnone, Option.bind_none]
  | delete path missingOk =>
    cases outcome with
    | error => cases hlearnt
    | ok b =>
      obtain ⟨p', hp', hgone, -⟩ := h.2 b rfl
      obtain rfl := path_eq hp'
      cases hlearnt
      exact hgone
  | writeText path text encoding =>
    cases outcome with
    | error => cases hlearnt
    | ok n =>
      obtain ⟨-, p', hp', hcontents⟩ := h.2 n rfl
      obtain rfl := path_eq hp'
      cases hlearnt
      exact hcontents
  | appendText path text encoding =>
    cases outcome with
    | error => cases hlearnt
    | ok n =>
      obtain ⟨-, p', hp', hcontents⟩ := h.2 n rfl
      obtain rfl := path_eq hp'
      -- what an append leaves is known if what it found was
      obtain ⟨old, hold, rfl⟩ := Option.map_eq_some_iff.mp hlearnt
      rw [hcontents, hknown old hold]

end Runs

/-! ## A note -/

theorem isComponent_note : IsComponent "a" := by decide

/-- A root with one file in it. -/
def noteTree (content : List UInt8) : Tree where
  root := 0
  nodes := Dict.ofList [(0, .dir (.single "a" isComponent_note 1)), (1, .file content)]

def noteWorld (content : List UInt8) (held : List (Fd × Descriptor)) : FileWorld where
  tree := noteTree content
  held := Dict.ofList held

theorem noteTree_entry {content : List UInt8} {d i : Ino} {name : String}
    (h : (noteTree content).entry d name = some i) : d = 0 ∧ name = "a" ∧ i = 1 := by
  obtain ⟨dir, hdir, hi⟩ := Tree.entry_eq_some_iff.mp h
  have hd := Dict.mem_of_mem_ofList (Dict.get?_eq_some_iff.mp hdir)
  simp only [List.mem_cons, Prod.mk.injEq, Node.dir.injEq, List.not_mem_nil, or_false,
    reduceCtorEq, and_false] at hd
  obtain ⟨rfl, rfl⟩ := hd
  have hentry : ((∅ : Dict String Ino).set "a" 1).get? name = some i := hi
  rw [Dict.get?_set] at hentry
  split at hentry
  · rename_i hname
    exact ⟨rfl, hname, (Option.some.inj hentry).symm⟩
  · cases hentry

theorem noteTree_shaped (content : List UInt8) : (noteTree content).Shaped where
  root := rfl
  present h := by
    obtain ⟨-, -, rfl⟩ := noteTree_entry h
    rfl
  root_ne h := by
    obtain ⟨-, -, rfl⟩ := noteTree_entry h
    exact Nat.one_ne_zero
  inj h h' := by
    obtain ⟨rfl, rfl, -⟩ := noteTree_entry h
    obtain ⟨rfl, rfl, -⟩ := noteTree_entry h'
    exact ⟨rfl, rfl⟩

/-- `write_text("a", "hi")`, over what was there. -/
theorem note_written : Serves ascii sandbox (noteWorld [120] [])
    ⟨.writeText "a" "hi" "ascii", .ok 2⟩ (noteWorld [104, 105] []) := by
  have hwritable : sandbox.writable "a" "write_text" = .ok ["a"] := by decide
  have hencode : ascii.encode "ascii" "hi" = .ok [104, 105] := by decide
  have hopens : FileWorld.OpensEntry (noteTree [120]) 0 "a"
      { create := true, truncate := true, nofollow := true } 1 (noteTree []) :=
    @FileWorld.OpensEntry.existing (noteTree [120]) 0 "a"
      { create := true, truncate := true, nofollow := true } 1 (.file [120]) rfl rfl
      (fun h => by cases h) (fun h => by cases h)
  refine ⟨[⟨noteWorld [120] [], .openRoot, .ok 3, noteWorld [120] [(3, { ino := 0 })]⟩,
    ⟨noteWorld [120] [(3, { ino := 0 })],
      .openAt 3 "a" { create := true, truncate := true, nofollow := true }, .ok 4,
      noteWorld [] [(3, { ino := 0 }), (4, { ino := 1 })]⟩,
    ⟨noteWorld [] [(3, { ino := 0 }), (4, { ino := 1 })],
      .fdopen 4 "w" "ascii", .ok ⟨4, "ascii", true⟩,
      noteWorld [] [(3, { ino := 0 }), (4, { ino := 1 })]⟩,
    ⟨noteWorld [] [(3, { ino := 0 }), (4, { ino := 1 })], .write ⟨4, "ascii", true⟩ "hi", .ok 2,
      noteWorld [] [(3, { ino := 0 }), (4, { ino := 1, pending := [104, 105] })]⟩,
    ⟨noteWorld [] [(3, { ino := 0 }), (4, { ino := 1, pending := [104, 105] })],
      .closeHandle ⟨4, "ascii", true⟩, .ok (), noteWorld [104, 105] [(3, { ino := 0 })]⟩,
    ⟨noteWorld [104, 105] [(3, { ino := 0 })], .close 3, .ok (), noteWorld [104, 105] []⟩], ?_⟩
  show Program.Exec _ (sandbox.writeText ascii "a" "hi" "ascii") _ _ _ _
  unfold FileSystemIntegration.writeText FileSystemIntegration.openFile
  rw [hwritable, hencode]
  refine .call rfl ⟨⟨rfl, by decide, rfl⟩, trivial⟩
    (.call rfl ⟨⟨by decide, by decide, 1, rfl, hopens⟩, trivial⟩
    (.call rfl ⟨⟨rfl, rfl, rfl, fun _ _ _ _ => rfl⟩, ?_⟩ (.call rfl ⟨⟨rfl, rfl⟩, trivial⟩
    (.call rfl ⟨⟨rfl, rfl⟩, trivial⟩ (.call rfl ⟨rfl, trivial⟩ .stop)))))
  rintro i ⟨⟩
  rfl

end TitoOS
