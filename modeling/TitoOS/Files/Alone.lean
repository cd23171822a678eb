import TitoOS.Files.Confinement
import TitoOS.Files.Store

/-!
# The driver alone

What an operation of `FileSystemIntegration` yields when nobody interferes with it
(`Yields`), and the rule of its walk: whatever the block guarantees where the path
leads, the walk does (`walk_yields`).
-/

namespace TitoOS

/-- `ENOENT` or `ENOTDIR`. -/
def Raised.isMissing : Raised → Bool
  | osError .ENOENT | osError .ENOTDIR => true
  | _ => false

/-- What the documentation of the calls adds to `answers`: no file object is made
of a directory; and where something is missing it is not there, or is no directory
where one is asked for. -/
def FileWorld.Documented (w : FileWorld) : (op : Sys) → Except Raised op.Result → Prop
  | .fdopen fd _ _, .ok _ => ∀ i, w.inode fd = some i → w.tree.dir? i = none
  | .openRoot, .error x => x.isMissing = true → w.tree.dir? w.tree.root = none
  | .openAt dir name flags, .error x => x.isMissing = true → flags.directory = true →
      ∀ d i, w.place dir name = some d → w.tree.entry d name = some i → w.tree.dir? i = none
  | .statAt dir name, .error x | .unlinkAt dir name, .error x => x.isMissing = true →
      ∀ d, w.place dir name = some d → w.tree.entry d name = none
  | .close _, .error x => x.isMissing = false
  | _, _ => True

/-- The system around an operation that nobody interferes with. -/
def alone (codec : Codec) : Surroundings FileWorld Sys Sys.Result Raised where
  answers v op answer w := v.answers codec op answer w ∧ v.Documented op answer
  interferes v w := w = v

/-- The outcome of every execution of `p` from `w`, alone, satisfies `Q`. -/
def Yields (codec : Codec) {α : Type} (p : FileProg α) (w : FileWorld)
    (Q : Except Raised α → FileWorld → Prop) : Prop :=
  ∀ past, p.Guarded (alone codec) (fun _ _ => True) (fun outcome _ w => Q outcome w) past w

namespace Yields

variable {codec : Codec} {α β : Type} {p : FileProg α} {w : FileWorld}
  {Q Q' : Except Raised α → FileWorld → Prop}

theorem ret {a : α} (h : Q (.ok a) w) : Yields codec (.ret a) w Q := fun _ => h

theorem raising {x : Raised} (h : Q (.error x) w) : Yields codec (TitoOS.raising x) w Q :=
  fun _ => h

theorem mono (h : Yields codec p w Q) (hQ : ∀ outcome w, Q outcome w → Q' outcome w) :
    Yields codec p w Q' := fun past => (h past).mono fun outcome _ w => hQ outcome w

theorem sys {op : Sys} {Q : Except Raised op.Result → FileWorld → Prop}
    (h : ∀ answer w', w.answers codec op answer w' → w.Documented op answer → Q answer w') :
    Yields codec (TitoOS.sys op) w Q := fun _ =>
  .perform fun v answer w' hint hans => by
    obtain rfl : v = w := hint
    exact ⟨trivial, h answer w' hans.1 hans.2⟩

theorem andThen {f : Except Raised α → FileProg β} {Q : Except Raised β → FileWorld → Prop}
    (h : Yields codec p w fun outcome w => Yields codec (f outcome) w Q) :
    Yields codec (p.andThen f) w Q := fun past =>
  .andThen ((h past).mono fun _ past _ hout => hout past)

theorem bind {f : α → FileProg β} {Q : Except Raised β → FileWorld → Prop}
    (h : Yields codec p w fun outcome w => match outcome with
      | .ok a => Yields codec (f a) w Q
      | .error x => Q (.error x) w) :
    Yields codec (p >>= f) w Q := fun past =>
  .bind ((h past).mono fun outcome past _ hout => by
    cases outcome with
    | ok => exact hout past
    | error => exact hout)

theorem exceptOSError {handler : Errno → FileProg α}
    (h : Yields codec p w fun outcome w => match outcome with
      | .error (.osError exc) => Yields codec (handler exc) w Q
      | outcome => Q outcome w) :
    Yields codec (TitoOS.exceptOSError p handler) w Q := fun past =>
  .catching ((h past).mono fun outcome past _ hout => by
    cases outcome with
    | ok => exact hout
    | error x =>
      cases x with
      | osError exc => exact hout past
      | _ => exact hout)

theorem catching {handler : Raised → FileProg α}
    (h : Yields codec p w fun outcome w => match outcome with
      | .ok a => Q (.ok a) w
      | .error x => Yields codec (handler x) w Q) :
    Yields codec (p.catching handler) w Q := fun past =>
  .catching ((h past).mono fun outcome past _ hout => by
    cases outcome with
    | ok => exact hout
    | error => exact hout past)

theorem finallyDo {q : FileProg Unit}
    (h : Yields codec p w fun outcome w =>
      Yields codec q w fun last w => Q (Program.finalOutcome outcome last) w) :
    Yields codec (p.finallyDo q) w Q := fun past =>
  .finallyDo_final ((h past).mono fun _ past _ hout => hout past)

/-- What a pure check lets through. -/
theorem done {check : Except Raised α} {f : α → FileProg β}
    {Q : Except Raised β → FileWorld → Prop}
    (hok : ∀ a, check = .ok a → Yields codec (f a) w Q)
    (herror : ∀ x, check = .error x → Q (.error x) w) :
    Yields codec (Program.done check >>= f) w Q := by
  cases check with
  | ok a => exact hok a rfl
  | error x => exact fun _ => herror x rfl

end Yields

/-! ## The walk -/

section Walk

variable {codec : Codec} {t₀ : Tree} {create : Bool} {p : List String} {fd : Fd} {w : FileWorld}
  {self : FileSystemIntegration} {path operation : String}

/-- The store is the one of `t₀`; unless directories may be created, so is the
tree. -/
structure Kept (t₀ : Tree) (create : Bool) (w : FileWorld) : Prop where
  shaped : w.tree.Shaped
  contents : w.tree.contents = t₀.contents
  same : create = false → w.tree = t₀

theorem Kept.of_tree (h : Kept t₀ create w) {w' : FileWorld} (htree : w'.tree = w.tree) :
    Kept t₀ create w' :=
  ⟨htree ▸ h.shaped, htree ▸ h.contents, fun hc => htree.trans (h.same hc)⟩

/-- The descriptor refers to what is at `p`. -/
structure Stands (t₀ : Tree) (create : Bool) (p : List String) (fd : Fd) (w : FileWorld) : Prop
    extends Kept t₀ create w where
  at_path : ∃ i, w.inode fd = some i ∧ w.tree.lookup p = some i

/-- There is nothing below `p`. -/
def NothingBelow (t : Tree) (p : List String) : Prop :=
  ∀ name rest, t.lookup (p ++ name :: rest) = none

theorem place_eq {part : String} (hpart : IsComponent part) {d : Ino} (hd : w.inode fd = some d) :
    w.place fd part = some d := by
  rw [FileWorld.place, if_pos hpart, hd]

/-- **A new directory** keeps the store, and the descriptor where it is. -/
theorem mkdirAt_yields {part : String} (hpart : IsComponent part) (h : Stands t₀ true p fd w) :
    Yields codec (sys (.mkdirAt fd part)) w fun _ w => Stands t₀ true p fd w := by
  obtain ⟨d, hd, hp⟩ := h.at_path
  refine .sys fun answer w' hans _ => ?_
  cases answer with
  | error x =>
    obtain ⟨rfl, -⟩ := hans
    exact h
  | ok =>
    obtain ⟨-, hheld, hmade⟩ := hans
    rw [place_eq hpart hd] at hmade
    obtain ⟨dir, i, hname, hdir, hnew, hfresh, htree⟩ := hmade
    have hadd : w'.tree = w.tree.add d dir part hname i (.dir .empty) := htree
    refine ⟨⟨?_, ?_, nofun⟩, d, by rw [FileWorld.inode, hheld]; exact hd, ?_⟩
    · rw [hadd]
      exact h.shaped.add hdir hfresh Node.bare_empty
    · rw [hadd, Tree.contents_add_dir h.shaped hdir hfresh hnew hp]
      exact h.contents
    · rw [hadd]
      exact Tree.lookup_add_of_some h.shaped hdir hfresh Node.bare_empty hnew hp hp

/-- A symlink is looked at, and nothing is changed. -/
theorem describeOserror_yields {exc : Errno} {place : Option (String × Fd)} :
    Yields codec (self.describeOserror exc path operation place) w fun outcome w' => w' = w
      ∧ match outcome with
        | .ok x => x = .osError exc ∨ x.isMissing = false
        | .error x => x.isMissing = false := by
  have hescaped : Yields codec (FileSystemIntegration.escaped exc place) w fun outcome w' =>
      w' = w ∧ ∀ x, outcome = .error x → x.isMissing = false := by
    unfold FileSystemIntegration.escaped
    split
    · exact .ret ⟨rfl, nofun⟩
    split
    · split
      · refine .exceptOSError (.bind (.sys fun answer w' hans _ => ?_))
        cases answer with
        | ok =>
          obtain ⟨-, rfl, -⟩ := hans
          exact .ret ⟨rfl, nofun⟩
        | error x =>
          obtain ⟨rfl, hx⟩ := hans
          cases x with
          | osError => exact .ret ⟨rfl, nofun⟩
          | _ => exact ⟨rfl, fun x hx => by cases hx; rfl⟩
      · exact .ret ⟨rfl, nofun⟩
    · exact .ret ⟨rfl, nofun⟩
  refine .bind (hescaped.mono fun outcome w' h => ?_)
  cases outcome with
  | error x => exact ⟨h.1, h.2 x rfl⟩
  | ok escaped =>
    refine .ret ⟨h.1, ?_⟩
    cases escaped with
    | true => exact .inr rfl
    | false => exact .inl rfl

/-- Opening changes the tree only where it creates or truncates. -/
theorem tree_eq_of_opensEntry {t t' : Tree} {d i : Ino} {name : String} {flags : OpenFlags}
    (hcreate : flags.create = false) (htruncate : flags.truncate = false)
    (h : FileWorld.OpensEntry t d name flags i t') : t' = t := by
  cases h with
  | existing => rw [htruncate]; rfl
  | created _ _ _ hnew => rw [hcreate] at hnew; cases hnew

/-- The entry `part` of what is at `p` was opened, or something is missing there. -/
def Entered (t₀ : Tree) (create : Bool) (p : List String) (part : String) (fd : Fd)
    (w : FileWorld) : Except Raised Fd → Prop
  | .ok nxt => Stands t₀ create (p ++ [part]) nxt w ∧ nxt ≠ fd
  | .error x => create = false → x.isMissing = true → NothingBelow t₀ (p ++ [part])

/-- **One entry further** along the path. -/
theorem openDir_yields (codec : Codec) (self : FileSystemIntegration) (path operation : String)
    {part : String} (hpart : IsComponent part) (h : Stands t₀ create p fd w) :
    Yields codec
      (exceptOSError (sys (.openAt fd part { directory := true, nofollow := true })) fun exc => do
        let x ← self.describeOserror exc path operation (some (part, fd))
        raising x) w fun outcome w => Kept t₀ create w ∧ Entered t₀ create p part fd w outcome := by
  obtain ⟨d, hd, hp⟩ := h.at_path
  refine .exceptOSError (.sys fun answer w' hans hdoc => ?_)
  cases answer with
  | ok nxt =>
    obtain ⟨-, hfresh, i, hheld, hopens⟩ := hans
    rw [place_eq hpart hd] at hopens
    have htree : w'.tree = w.tree := tree_eq_of_opensEntry rfl rfl hopens
    have hentry : w'.tree.entry d part = some i := FileWorld.OpensEntry.entry_eq hopens
    have hkept := h.toKept.of_tree htree
    refine ⟨hkept, ⟨hkept, i, ?_, ?_⟩, ?_⟩
    · rw [FileWorld.inode, hheld, Dict.get?_set_self]
      rfl
    · rw [Tree.lookup_concat, htree, hp, Option.bind_some, ← htree]
      exact hentry
    · intro hsame
      rw [← FileWorld.inode_eq_none_iff, show nxt = fd from hsame, hd] at hfresh
      cases hfresh
  | error x =>
    obtain ⟨rfl, hx⟩ := hans
    -- an error that says missing says so of everything below
    have hbelow : create = false → x.isMissing = true → NothingBelow t₀ (p ++ [part]) := by
      intro hcreate hmissing name rest
      rw [← h.same hcreate]
      refine Tree.lookup_below (fun i hi => ?_) name rest
      rw [Tree.lookup_concat, hp, Option.bind_some] at hi
      exact hdoc hmissing rfl d i (place_eq hpart hd) hi
    cases x with
    | osError exc =>
      refine .bind (describeOserror_yields.mono fun outcome w' hout => ?_)
      obtain ⟨rfl, hout⟩ := hout
      cases outcome with
      | error x => exact ⟨h.toKept, fun _ hmissing => by rw [hout] at hmissing; cases hmissing⟩
      | ok x =>
        refine .raising ⟨h.toKept, fun hcreate hmissing => ?_⟩
        rcases hout with rfl | hout
        · exact hbelow hcreate hmissing
        · rw [hout] at hmissing
          cases hmissing
    | _ => exact ⟨h.toKept, hbelow⟩

theorem enter_yields {part : String} (hpart : IsComponent part) (h : Stands t₀ create p fd w) :
    Yields codec (self.enter path operation create part fd) w fun outcome w =>
      Kept t₀ create w ∧ Entered t₀ create p part fd w outcome := by
  unfold FileSystemIntegration.enter
  cases create with
  | false => exact openDir_yields codec self path operation hpart h
  | true =>
    refine .bind (.exceptOSError ((mkdirAt_yields hpart h).mono fun outcome w h => ?_))
    cases outcome with
    | ok => exact openDir_yields codec self path operation hpart h
    | error x =>
      cases x with
      | osError exc =>
        by_cases hexists : exc = .EEXIST
        · simp only [if_pos hexists]
          exact .ret (openDir_yields codec self path operation hpart h)
        · simp only [if_neg hexists]
          exact .raising ⟨h.toKept, nofun⟩
      | _ => exact ⟨h.toKept, nofun⟩

/-- The postcondition of a block looks at the tree only, and an exception that says
nothing is missing may replace whatever the outcome was. -/
structure Lenient {α : Type} (t₀ : Tree) (create : Bool) (total : List String)
    (Q : Except Raised α → Tree → Prop) : Prop where
  replaced : ∀ outcome x t, x.isMissing = false → Q outcome t → Q (.error x) t
  failed : ∀ x w, Kept t₀ create w →
    (create = false → x.isMissing = true → NothingBelow t₀ total) → Q (.error x) w.tree

theorem close_yields {α : Type} {total : List String} {Q : Except Raised α → Tree → Prop}
    (hQ : Lenient t₀ create total Q) (fd : Fd) (outcome : Except Raised α) (h : Q outcome w.tree) :
    Yields codec (sys (.close fd)) w fun last w =>
      Q (Program.finalOutcome outcome last) w.tree := by
  refine .sys fun answer w' hans hdoc => ?_
  cases answer with
  | ok =>
    obtain rfl := hans
    exact h
  | error x =>
    have htree : w'.tree = w.tree := (FileWorld.answers.of_error hans).1
    show Q (.error x) w'.tree
    rw [htree]
    exact hQ.replaced outcome x _ hdoc h

/-- **The walk**: what the block guarantees where the path leads, the walk does. -/
theorem walkFrom_yields {α : Type} {block : Fd → FileProg α} {total : List String}
    {Q : Except Raised α → Tree → Prop} (hQ : Lenient t₀ create total Q)
    (hblock : ∀ fd w, Stands t₀ create total fd w →
      Yields codec (block fd) w fun outcome w => Q outcome w.tree)
    {components : List String} (hcomponents : ∀ part ∈ components, IsComponent part)
    (htotal : p ++ components = total) (h : Stands t₀ create p fd w) :
    Yields codec (self.walkFrom path operation create block components fd) w
      fun outcome w => Q outcome w.tree := by
  induction components generalizing p fd w with
  | nil =>
    rw [List.append_nil] at htotal
    subst htotal
    exact .finallyDo ((hblock fd w h).mono fun outcome w hout => close_yields hQ fd outcome hout)
  | cons part rest ih =>
    -- what is missing here is missing at the end of the path
    have hbelow : NothingBelow t₀ (p ++ [part]) → NothingBelow t₀ total := by
      intro hno name more
      rw [← htotal, List.append_cons p part rest, List.append_assoc]
      cases rest with
      | nil => exact hno name more
      | cons x rest => exact hno x (rest ++ name :: more)
    refine .andThen ((enter_yields (hcomponents part (by simp)) h).mono fun outcome w hout => ?_)
    cases outcome with
    | error x =>
      exact .finallyDo (.raising (close_yields hQ fd (.error x) (hQ.failed x w hout.1
        fun hcreate hmissing => hbelow (hout.2 hcreate hmissing))))
    | ok nxt =>
      obtain ⟨hkept, hstands, hne⟩ := hout
      refine .andThen (.sys fun answer w' hans hdoc => ?_)
      cases answer with
      | error x =>
        have hkept := hkept.of_tree (FileWorld.answers.of_error hans).1
        exact .finallyDo (.raising (close_yields hQ fd (.error x) (hQ.failed x w' hkept
          fun _ hmissing => by
            rw [show x.isMissing = false from hdoc] at hmissing
            cases hmissing)))
      | ok =>
        obtain rfl := hans
        obtain ⟨i, hi, hp⟩ := hstands.at_path
        -- the descriptor of the parent is closed, and the walk goes on from the child
        refine ih (fun x hx => hcomponents x (by simp [hx])) ?_
          ⟨hstands.toKept.of_tree rfl, i, ?_, hp⟩
        · rw [← htotal, List.append_cons p part rest]
        · rw [FileWorld.inode, Dict.get?_erase_ne _ hne]
          exact hi

theorem walk_yields {α : Type} {includeLast : Bool} {block : Fd → FileProg α}
    {parts total : List String} {Q : Except Raised α → Tree → Prop}
    (hQ : Lenient t₀ create total Q) (hshaped : t₀.Shaped) (hw : w.tree = t₀)
    (hparts : ∀ part ∈ parts, IsComponent part)
    (htotal : (if includeLast then parts else parts.dropLast) = total)
    (hblock : ∀ fd w, Stands t₀ create total fd w →
      Yields codec (block fd) w fun outcome w => Q outcome w.tree) :
    Yields codec (self.walk parts path operation create includeLast block) w
      fun outcome w => Q outcome w.tree := by
  have hkept : Kept t₀ create w := ⟨hw ▸ hshaped, congrArg Tree.contents hw, fun _ => hw⟩
  have hcomponents : ∀ part ∈ if includeLast then parts else parts.dropLast, IsComponent part := by
    intro part hpart
    split at hpart
    · exact hparts part hpart
    · exact hparts part (List.dropLast_subset _ hpart)
  refine .bind (.sys fun answer w' hans hdoc => ?_)
  cases answer with
  | error x =>
    obtain ⟨rfl, -⟩ := hans
    refine hQ.failed x _ hkept fun _ hmissing name rest => ?_
    have hroot := hdoc hmissing
    rw [hw] at hroot
    cases total with
    | nil => exact Tree.lookup_below (p := []) (fun i hi => by cases hi; exact hroot) name rest
    | cons x total =>
      exact Tree.lookup_below (p := []) (fun i hi => by cases hi; exact hroot) x _
  | ok fd =>
    obtain ⟨-, -, rfl⟩ := hans
    refine walkFrom_yields hQ hblock hcomponents (p := []) htotal ⟨hkept.of_tree rfl, _, ?_, rfl⟩
    simp [FileWorld.inode]

end Walk

end TitoOS
