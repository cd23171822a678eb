import TitoOS.Files.Alone

/-!
# Opening a file alone

The rule of `_open` (`openFile_yields`): the block is given a file object of the
file at the path, created or truncated as the flags say, and what it writes is in
the file when the file object is closed.
-/

namespace TitoOS

/-- The parts of a path, where it has them. -/
def FileSystemIntegration.parts? (self : FileSystemIntegration) (path : String) :
    Option (List String) := (self.parts path "").toOption

section Files

variable {codec : Codec} {t₀ : Tree} {create : Bool} {p : List String} {fd : Fd} {w : FileWorld}
  {self : FileSystemIntegration} {path operation : String} {flags : OpenFlags}

/-- The parts do not depend on who asks for them, and to refuse them is not to miss
them. -/
theorem parts_cases (self : FileSystemIntegration) (path operation : String) :
    (∃ p, self.parts? path = some p ∧ self.parts path operation = .ok p)
      ∨ self.parts? path = none
        ∧ ∃ x, self.parts path operation = .error x ∧ x.isMissing = false := by
  unfold FileSystemIntegration.parts? FileSystemIntegration.parts
  simp only
  split
  · exact .inr ⟨rfl, _, rfl, rfl⟩
  · split
    · exact .inr ⟨rfl, _, rfl, rfl⟩
    · exact .inl ⟨_, rfl, rfl⟩

theorem writable_cases (self : FileSystemIntegration) (path operation : String) :
    (∃ p, self.parts? path = some p ∧ self.writable path operation = .ok p)
      ∨ ∃ x, self.writable path operation = .error x ∧ x.isMissing = false := by
  unfold FileSystemIntegration.writable
  cases self.readOnly with
  | true => exact .inr ⟨_, rfl, rfl⟩
  | false =>
    rcases parts_cases self path operation with ⟨p, hp, hok⟩ | ⟨-, x, herror, hx⟩
    · exact .inl ⟨p, hp, hok⟩
    · exact .inr ⟨x, herror, hx⟩

/-- The store is the one of `t₀`, except perhaps at `p`. -/
structure Near (t₀ : Tree) (p : List String) (t : Tree) : Prop where
  shaped : t.Shaped
  others : ∀ q, q ≠ p → t.contents q = t₀.contents q

theorem Kept.near (h : Kept t₀ create w) (p : List String) : Near t₀ p w.tree :=
  ⟨h.shaped, fun q _ => congrFun h.contents q⟩

/-- The descriptor refers to the file at `p`, whose content is `content`. -/
structure FileAt (t₀ : Tree) (p : List String) (content : List UInt8) (d : Descriptor) (fd : Fd)
    (w : FileWorld) : Prop extends Near t₀ p w.tree where
  held : w.held.get? fd = some d
  at_path : w.tree.lookup p = some d.ino
  content_eq : w.tree.content? d.ino = some content

/-- What opening the file at `p` leads to: the file, created or truncated as the
flags say, or a directory. -/
structure Opened (t₀ : Tree) (create : Bool) (p : List String) (flags : OpenFlags) (fd : Fd)
    (w : FileWorld) : Prop extends Near t₀ p w.tree where
  file : ∃ i, w.inode fd = some i ∧ (w.tree.dir? i = none →
    FileAt t₀ p (if flags.truncate then [] else (t₀.contents p).getD [])
      { ino := i, append := flags.append } fd w)
  same : create = false → flags.create = false → flags.truncate = false →
    w.tree = t₀ ∧ ∀ i, w.inode fd = some i → w.tree.dir? i = none → (t₀.contents p).isSome = true

/-- **Opening an entry** of a directory of `t`, whose store is the one of `t₀`. -/
theorem near_of_opensEntry {t t' : Tree} {d i : Ino} {last : String} (hshaped : t.Shaped)
    (hcontents : t.contents = t₀.contents) (hp : t.lookup p = some d)
    (h : FileWorld.OpensEntry t d last flags i t') :
    Near t₀ (p ++ [last]) t' ∧ t'.lookup (p ++ [last]) = some i
      ∧ (t'.dir? i = none → t'.content? i
        = some (if flags.truncate then [] else (t₀.contents (p ++ [last])).getD []))
      ∧ (flags.create = false → t'.dir? i = none → (t₀.contents (p ++ [last])).isSome = true) := by
  have hnear : Near t₀ (p ++ [last]) t := ⟨hshaped, fun q _ => congrFun hcontents q⟩
  have hlookup : ∀ {j}, t.entry d last = some j → t.lookup (p ++ [last]) = some j := fun hj => by
    rw [Tree.lookup_concat, hp, Option.bind_some, hj]
  cases h with
  | @existing node hentry hnode hlink _ =>
    have hat := hlookup hentry
    cases node with
    | link => exact absurd rfl hlink
    | dir dir =>
      have hdir : t.dir? i = some dir := Tree.dir?_eq_some_iff.mpr hnode
      -- a directory is opened as it is, whatever the flags say
      have hsame : (if (flags.truncate && decide ((Node.dir dir).kind = .regular)) = true
          then t.put i (.file []) else t) = t := if_neg (by simp [Node.kind])
      rw [hsame]
      exact ⟨hnear, hat, fun hno => absurd (hdir.symm.trans hno) (by simp),
        fun _ hno => absurd (hdir.symm.trans hno) (by simp)⟩
    | file content =>
      have hcontent : t.content? i = some content := by rw [Tree.content?, hnode]; rfl
      have hold : t₀.contents (p ++ [last]) = some content := by
        rw [← hcontents, Tree.contents, hat, Option.bind_some, hcontent]
      have hdir := Tree.dir?_of_content hcontent
      cases htruncate : flags.truncate with
      | false =>
        exact ⟨hnear, hat, fun _ => by simpa [hold] using hcontent, fun _ _ => by simp [hold]⟩
      | true =>
        rw [if_pos (by rfl)]
        refine ⟨⟨hshaped.put_file hdir [], fun q hq => ?_⟩, ?_, fun _ => ?_,
          fun _ _ => by simp [hold]⟩
        · rw [Tree.contents_put_file hshaped hat hdir, Function.update_of_ne hq]
          exact congrFun hcontents q
        · rw [Tree.lookup_congr (Tree.entry_put_file hdir []) rfl]
          exact hat
        · simp [Tree.content?_put, Node.content?]
  | @created dir hname hdir hnew hcreate hfresh =>
    have hbare := Node.bare_file []
    have hcontents' := Tree.contents_add_file hname hshaped hdir hfresh hnew hp []
    have hold : t₀.contents (p ++ [last]) = none := by
      rw [← hcontents, Tree.contents_eq_none_of_new hdir hnew hp]
    refine ⟨⟨hshaped.add hdir hfresh hbare, fun q hq => ?_⟩, ?_, fun _ => ?_,
      fun hno => absurd (hcreate.symm.trans hno) (by simp)⟩
    · rw [← congrFun hcontents q, ← Function.update_of_ne hq (some []) t.contents]
      exact congrFun hcontents' q
    · exact (Tree.lookup_add hshaped hdir hfresh hbare hnew hp _).trans (if_pos rfl)
    · rw [hold, Option.getD_none, ite_self, Tree.content?_put, if_pos rfl, Node.content?_file]

theorem opened_of_openAt {last : String} {dir : Fd} (hlast : IsComponent last)
    (h : Stands t₀ create p dir w) {w' : FileWorld}
    (hans : w.answers codec (.openAt dir last { flags with nofollow := true }) (.ok fd) w') :
    Opened t₀ create (p ++ [last]) flags fd w' := by
  obtain ⟨d, hd, hp⟩ := h.at_path
  obtain ⟨-, -, i, hheld, hopens⟩ := hans
  rw [place_eq hlast hd] at hopens
  have hopens : FileWorld.OpensEntry w.tree d last { flags with nofollow := true } i w'.tree :=
    hopens
  have hget : w'.held.get? fd = some { ino := i, append := flags.append } := by
    rw [hheld, Dict.get?_set_self]
  have hinode : w'.inode fd = some i := by rw [FileWorld.inode, hget]; rfl
  obtain ⟨hnear, hat, hcontent, hfound⟩ := near_of_opensEntry h.shaped h.contents hp hopens
  refine ⟨hnear, ⟨i, hinode, fun hdir => ⟨hnear, hget, hat, hcontent hdir⟩⟩,
    fun hno hcreate htruncate => ⟨?_, fun j hj hdir => ?_⟩⟩
  · exact (tree_eq_of_opensEntry (by exact hcreate) (by exact htruncate) hopens).trans (h.same hno)
  · obtain rfl : i = j := Option.some.inj (hinode.symm.trans hj)
    exact hfound hcreate hdir

/-- What a block over a file object leaves behind: the file object open, and a tree
that satisfies `Q` flushed as well as unflushed. -/
def LeavesOpen {α : Type} (Q : Except Raised α → Tree → Prop) (fd : Fd)
    (outcome : Except Raised α) (w : FileWorld) : Prop :=
  ∃ d, w.held.get? fd = some d ∧ Q outcome (FileWorld.flushed w.tree d) ∧ ∀ x, Q (.error x) w.tree

theorem closeHandle_yields {α : Type} {Q : Except Raised α → Tree → Prop} {handle : Handle}
    {outcome : Except Raised α} (h : LeavesOpen Q handle.fd outcome w) :
    Yields codec (sys (.closeHandle handle)) w fun last w =>
      Q (Program.finalOutcome outcome last) w.tree := by
  obtain ⟨d, hd, hflushed, hsame⟩ := h
  refine .sys fun answer w' hans _ => ?_
  cases answer with
  | ok =>
    obtain ⟨-, htree⟩ := hans
    rw [hd] at htree
    show Q outcome w'.tree
    rw [show w'.tree = FileWorld.flushed w.tree d from htree]
    exact hflushed
  | error x =>
    obtain ⟨rfl, -⟩ := hans
    exact hsame x

/-- The file object that `os.fdopen` made, as it was then. -/
structure Wraps (mode encoding : String) (handle : Handle) (w : FileWorld) : Prop where
  encoding_eq : handle.encoding = encoding
  begins : w.BeginsAtStart handle.fd mode handle.atStart

/-- A file, opened: the block is given a file object of it. -/
theorem block_yields {α : Type} {mode encoding last : String} {block : Handle → FileProg α}
    {dir : Fd} {Q : Except Raised α → Tree → Prop} (hlast : IsComponent last)
    (h : Stands t₀ create p dir w) (hkept : ∀ x w, Kept t₀ create w → Q (.error x) w.tree)
    (hnear : ∀ x t, Near t₀ (p ++ [last]) t → (create = false → flags.create = false →
      flags.truncate = false → t = t₀) → Q (.error x) t)
    (hblock : ∀ i handle w, Wraps mode encoding handle w → Near t₀ (p ++ [last]) w.tree →
      FileAt t₀ (p ++ [last]) (if flags.truncate then [] else (t₀.contents (p ++ [last])).getD [])
        { ino := i, append := flags.append } handle.fd w →
      (create = false → flags.create = false → flags.truncate = false →
        w.tree = t₀ ∧ (t₀.contents (p ++ [last])).isSome = true) →
      Yields codec (block handle) w (LeavesOpen Q handle.fd)) :
    Yields codec (do
      let fd ← exceptOSError (sys (.openAt dir last { flags with nofollow := true })) fun exc => do
        let x ← self.describeOserror exc path operation none
        raising x
      let handle ← (sys (.fdopen fd mode encoding)).catching fun x => do
        sys (.close fd)
        raising x
      (block handle).finallyDo (sys (.closeHandle handle))) w
      fun outcome w => Q outcome w.tree := by
  refine .bind (.exceptOSError (.sys fun answer w' hans _ => ?_))
  cases answer with
  | error x =>
    obtain ⟨rfl, -⟩ := hans
    cases x with
    | osError exc =>
      -- the entry could not be opened, and the error is told after one more look at it
      refine .bind (describeOserror_yields.mono fun outcome w' hout => ?_)
      obtain ⟨rfl, -⟩ := hout
      cases outcome with
      | error x => exact hkept x _ h.toKept
      | ok x => exact .raising (hkept x _ h.toKept)
    | _ => exact hkept _ _ h.toKept
  | ok fd =>
    have hopened : Opened t₀ create (p ++ [last]) flags fd w' := opened_of_openAt hlast h hans
    have herror : ∀ x, Q (.error x) w'.tree := fun x =>
      hnear x w'.tree hopened.toNear fun hno hc ht => (hopened.same hno hc ht).1
    refine .bind (.catching (.sys fun answer w hans hdoc => ?_))
    cases answer with
    | error x =>
      -- the descriptor could not be wrapped: it is closed, and the entry may be new
      have htree : w.tree = w'.tree := (FileWorld.answers.of_error hans).1
      refine .bind (.sys fun answer w'' hans _ => ?_)
      cases answer with
      | ok =>
        obtain rfl := hans
        exact .raising (htree ▸ herror x)
      | error y =>
        have htree' : w''.tree = w.tree := (FileWorld.answers.of_error hans).1
        show Q (.error y) w''.tree
        rw [htree', htree]
        exact herror y
    | ok handle =>
      obtain ⟨rfl, hwraps, hencoding, hbegins⟩ := hans
      obtain ⟨i, hi, hfile⟩ := hopened.file
      have hdir : w.tree.dir? i = none := hdoc i hi
      rw [← hwraps] at hfile hbegins
      exact .finallyDo ((hblock i handle w ⟨hencoding, hbegins⟩ hopened.toNear (hfile hdir)
        fun hno hc ht =>
          ⟨(hopened.same hno hc ht).1, (hopened.same hno hc ht).2 i hi hdir⟩).mono
        fun outcome w hout => closeHandle_yields hout)

theorem isComponent_of_parts? (hp : self.parts? path = some p) : ∀ part ∈ p, IsComponent part := by
  rcases parts_cases self path "" with ⟨p', hp', hok⟩ | ⟨hnone, -⟩
  · obtain rfl : p' = p := Option.some.inj (hp'.symm.trans hp)
    exact fun part hpart => FileSystemIntegration.isComponent_of_parts hok hpart
  · rw [hp] at hnone
    cases hnone

/-- What `_open` lets through. -/
theorem check_cases (self : FileSystemIntegration) (path operation : String) (writable : Bool) :
    (∃ p, self.parts? path = some p ∧ (if writable then self.writable path operation
        else self.parts path operation) = .ok p)
      ∨ ∃ x, (if writable then self.writable path operation else self.parts path operation)
        = .error x := by
  cases writable with
  | true =>
    rcases writable_cases self path operation with h | ⟨x, hx, -⟩
    · exact .inl h
    · exact .inr ⟨x, hx⟩
  | false =>
    rcases parts_cases self path operation with h | ⟨-, x, hx, -⟩
    · exact .inl h
    · exact .inr ⟨x, hx⟩

/-- **The rule of `_open`**: a block that leaves the file open with `Q` in sight. -/
theorem openFile_yields {α : Type} {mode encoding : String} {writable : Bool}
    {block : Handle → FileProg α} {Q : Except Raised α → Tree → Prop} (hshaped : t₀.Shaped)
    (hw : w.tree = t₀) (hreplaced : ∀ outcome x t, Q outcome t → Q (.error x) t)
    (hkept : ∀ x w, Kept t₀ writable w → Q (.error x) w.tree)
    (hnear : ∀ p, self.parts? path = some p → ∀ x t, Near t₀ p t → (writable = false →
      flags.create = false → flags.truncate = false → t = t₀) → Q (.error x) t)
    (hblock : ∀ p, self.parts? path = some p → ∀ i handle w, Wraps mode encoding handle w →
      Near t₀ p w.tree → FileAt t₀ p (if flags.truncate then [] else (t₀.contents p).getD [])
        { ino := i, append := flags.append } handle.fd w →
      (writable = false → flags.create = false → flags.truncate = false →
        w.tree = t₀ ∧ (t₀.contents p).isSome = true) →
      Yields codec (block handle) w (LeavesOpen Q handle.fd)) :
    Yields codec (self.openFile path operation flags mode encoding writable block) w
      fun outcome w => Q outcome w.tree := by
  have hstart : Kept t₀ writable w := ⟨hw ▸ hshaped, congrArg Tree.contents hw, fun _ => hw⟩
  rcases check_cases self path operation writable with ⟨p, hp, hcheck⟩ | ⟨x, hcheck⟩
  · refine .done (fun parts hparts => ?_) fun x hx => hkept x w hstart
    obtain rfl : p = parts := Except.ok.inj (hcheck.symm.trans hparts)
    cases hlast : p.getLast? with
    | none => exact .raising (hkept _ w hstart)
    | some last =>
      have hcomponents := isComponent_of_parts? hp
      have hsplit : p.dropLast ++ [last] = p := List.dropLast_append_getLast? last hlast
      refine walk_yields ⟨fun outcome x t _ => hreplaced outcome x t, fun x w h _ => hkept x w h⟩
        hshaped hw hcomponents rfl fun fd w (hstands : Stands t₀ writable p.dropLast fd w) => ?_
      refine block_yields (hcomponents last (List.mem_of_getLast? hlast)) hstands hkept
        (fun x t => ?_) fun i handle w => ?_
      · rw [hsplit]
        exact hnear p hp x t
      · rw [hsplit]
        exact hblock p hp i handle w
  · exact .done (fun a ha => by rw [hcheck] at ha; cases ha) fun x _ => hkept x w hstart

end Files

end TitoOS
