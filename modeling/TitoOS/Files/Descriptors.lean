import TitoOS.Files.Confinement
import TitoOS.Lib.Custody

/-!
# Descriptors

Who closes what: `_walk` and `_open` close every descriptor that `os.open` gave
them, once, wherever they fail and whatever their blocks raise; unless
`os.fdopen` fails after it has wrapped the descriptor (`closed_once_iff`). It has
closed it then, and the `except` clause closes it again.

The programs are followed by the descriptors they hold (`Leaves`), with a rule
for each call and each construct.
-/

namespace TitoOS

/-! ## Turns of a descriptor -/

/-- What a call does to a descriptor of the operation: `os.open` gives one, and
`os.close`, the end of `with handle` and an `os.fdopen` that fails once it has
wrapped it close one. -/
def FileEvent.turn? : FileEvent → Option (Fd × Turn)
  | ⟨_, .openRoot, .ok fd, _⟩ | ⟨_, .openAt .., .ok fd, _⟩ => some (fd, .acquired)
  | ⟨_, .close fd, _, _⟩ => some (fd, .released)
  | ⟨_, .closeHandle handle, _, _⟩ => some (handle.fd, .released)
  | ⟨_, .fdopen fd .., .error _, w⟩ => if fd ∈ w.held.keys then none else some (fd, .released)
  | _ => none

/-- The call is an `os.fdopen` that failed after it had wrapped the descriptor. -/
def FileEvent.wrapFailed : FileEvent → Bool
  | ⟨_, .fdopen fd .., .error _, w⟩ => fd ∉ w.held.keys
  | _ => false

/-- No `os.fdopen` failed after it had wrapped the descriptor. -/
def WrapsKeep (es : List FileEvent) : Prop := ∀ e ∈ es, FileEvent.wrapFailed e = false

instance (es : List FileEvent) : Decidable (WrapsKeep es) :=
  inferInstanceAs (Decidable (∀ e ∈ es, FileEvent.wrapFailed e = false))

/-- Every descriptor was closed once for each time `os.open` gave it. -/
abbrev ClosedOnce (es : List FileEvent) : Prop := Custody.ReleasedOnce FileEvent.turn? es

/-- No descriptor was closed that was already closed. -/
abbrev ClosesOpen (es : List FileEvent) : Prop := Custody.Orderly FileEvent.turn? es

/-- The operating system, where `os.close` of an open descriptor succeeds. -/
def closingSystem (codec : Codec) : Surroundings FileWorld Sys Sys.Result Raised where
  answers w op answer w' := w.answers codec op answer w'
    ∧ ∀ fd, op = .close fd → fd ∈ w.held.keys → answer.isOk = true
  interferes := FileWorld.interferes

/-! ## What is held -/

/-- Exactly the descriptors `S` are held, or it has already gone wrong. -/
inductive Standing (S : List Fd) (past : List FileEvent) (w : FileWorld) : Prop
  | sound (keep : WrapsKeep past) (holds : Custody.Holds FileEvent.turn? S past) (nodup : S.Nodup)
      (held : ∀ fd ∈ S, fd ∈ w.held.keys)
  | spoilt (failed : ¬WrapsKeep past) (spoilt : Custody.Spoilt FileEvent.turn? past)

/-- A call after which no closed descriptor has been closed, if no `os.fdopen`
has failed after wrapping. -/
def ClosesSafely (past : List FileEvent) (e : FileEvent) : Prop :=
  WrapsKeep (past ++ [e]) → ClosesOpen (past ++ [e])

/-- From `S` on, the program ends with the descriptors `f` says. -/
def Leaves (codec : Codec) {α : Type} (S : List Fd) (p : FileProg α)
    (f : Except Raised α → List Fd) : Prop :=
  ∀ past w, Standing S past w → p.Guarded (closingSystem codec) ClosesSafely
    (fun outcome past w => Standing (f outcome) past w) past w

variable {codec : Codec} {α β : Type} {S S' : List Fd} {past : List FileEvent} {v w w' : FileWorld}

theorem wrapsKeep_concat {e : FileEvent} :
    WrapsKeep (past ++ [e]) ↔ WrapsKeep past ∧ FileEvent.wrapFailed e = false := by
  simp [WrapsKeep, or_imp, forall_and]

namespace Standing

theorem closing {e : FileEvent} (h : Standing S (past ++ [e]) w) : ClosesSafely past e := by
  intro hkeep
  cases h with
  | sound _ holds => exact holds.orderly
  | spoilt failed => exact absurd hkeep failed

theorem interfered (h : Standing S past w) (hint : w.interferes v) : Standing S past v := by
  cases h with
  | sound keep holds nodup held => exact .sound keep holds nodup fun fd hfd => hint.2 ▸ held fd hfd
  | spoilt failed spoilt => exact .spoilt failed spoilt

/-- The descriptors may be named in any order. -/
theorem perm (h : Standing S past w) (hS : S.Perm S') : Standing S' past w := by
  cases h with
  | sound keep holds nodup held =>
    exact .sound keep (holds.congr fun fd => hS.mem_iff) (hS.nodup nodup)
      fun fd hfd => held fd (hS.mem_iff.mpr hfd)
  | spoilt failed spoilt => exact .spoilt failed spoilt

/-- Once it has gone wrong it stays so. -/
theorem spoilt_later (failed : ¬WrapsKeep past) (spoilt : Custody.Spoilt FileEvent.turn? past)
    (e : FileEvent) : Standing S (past ++ [e]) w :=
  .spoilt (fun h => failed (wrapsKeep_concat.mp h).1) (spoilt.later e)

/-- A descriptor is opened. -/
theorem opened {e : FileEvent} {fd : Fd} {d : Descriptor}
    (holds : Custody.Holds FileEvent.turn? S past) (nodup : S.Nodup)
    (held : ∀ fd ∈ S, fd ∈ v.held.keys) (keep : WrapsKeep (past ++ [e]))
    (hturn : e.turn? = some (fd, .acquired)) (hfresh : fd ∉ v.held.keys)
    (hheld : w'.held = v.held.set fd d) : Standing (fd :: S) (past ++ [e]) w' := by
  have hnew : fd ∉ S := fun hfd => hfresh (held fd hfd)
  refine .sound keep (holds.acquire hturn hnew) (nodup.cons hnew) fun x hx => ?_
  rw [hheld, Dict.mem_keys_iff]
  by_cases hne : x = fd
  · exact ⟨d, hne ▸ Dict.get?_set_self ..⟩
  · obtain ⟨d', hd'⟩ := Dict.mem_keys_iff.mp (held x (List.mem_of_ne_of_mem hne hx))
    exact ⟨d', (Dict.get?_set_ne _ _ hne).trans hd'⟩

/-- A descriptor is closed, and only that. -/
theorem closed {e : FileEvent} {fd : Fd} (holds : Custody.Holds FileEvent.turn? (fd :: S) past)
    (nodup : (fd :: S).Nodup) (keep : WrapsKeep (past ++ [e]))
    (hturn : e.turn? = some (fd, .released)) (held : ∀ x ∈ S, x ≠ fd → x ∈ w'.held.keys) :
    Standing S (past ++ [e]) w' := by
  obtain ⟨hfd, hS⟩ := List.nodup_cons.mp nodup
  refine .sound keep (holds.release hturn hfd) hS fun x hx => held x hx ?_
  rintro rfl
  exact hfd hx

end Standing

/-! ## Rules -/

namespace Leaves

theorem andThen {p : FileProg α} {g : Except Raised α → FileProg β} {f : Except Raised α → List Fd}
    {f' : Except Raised β → List Fd} (h : Leaves codec S p f)
    (hg : ∀ outcome, Leaves codec (f outcome) (g outcome) f') : Leaves codec S (p.andThen g) f' :=
  fun past w hS => .andThen ((h past w hS).mono fun outcome past w hout => hg outcome past w hout)

theorem done (outcome : Except Raised α) {f : Except Raised α → List Fd} (h : f outcome = S) :
    Leaves codec S (Program.done outcome) f := by
  subst h
  exact fun past w hS => .of_done hS

theorem bind {p : FileProg α} {g : α → FileProg β} {f : Except Raised α → List Fd}
    {f' : Except Raised β → List Fd} (h : Leaves codec S p f)
    (hg : ∀ a, Leaves codec (f (.ok a)) (g a) f') (herror : ∀ x, f' (.error x) = f (.error x)) :
    Leaves codec S (p >>= g) f' :=
  h.andThen fun
    | .ok a => hg a
    | .error x => done (.error x) (herror x)

theorem catching {p : FileProg α} {handler : Raised → FileProg α} {f f' : Except Raised α → List Fd}
    (h : Leaves codec S p f) (hok : ∀ a, f' (.ok a) = f (.ok a))
    (hhandler : ∀ x, Leaves codec (f (.error x)) (handler x) f') :
    Leaves codec S (p.catching handler) f' :=
  h.andThen fun
    | .ok a => done (.ok a) (hok a)
    | .error x => hhandler x

theorem finallyDo {p : FileProg α} {q : FileProg Unit} {S₁ S₂ : List Fd}
    (h : Leaves codec S p fun _ => S₁) (hq : Leaves codec S₁ q fun _ => S₂) :
    Leaves codec S (p.finallyDo q) fun _ => S₂ :=
  h.andThen fun outcome => hq.andThen fun
    | .ok () => done outcome rfl
    | .error x => done (.error x) rfl

theorem perm {p : FileProg α} {f : Except Raised α → List Fd} (h : Leaves codec S p f)
    (hS : S'.Perm S) : Leaves codec S' p f := fun past w hstanding => h past w (hstanding.perm hS)

/-- A call, by what it does to the descriptors that are held. -/
theorem sys {op : Sys} {f : Except Raised op.Result → List Fd}
    (h : ∀ past v answer w', Custody.Holds FileEvent.turn? S past → S.Nodup →
      (∀ fd ∈ S, fd ∈ v.held.keys) → WrapsKeep past → (closingSystem codec).answers v op answer w' →
      Standing (f answer) (past ++ [⟨v, op, answer, w'⟩]) w') :
    Leaves codec S (TitoOS.sys op) f := fun past w hstanding => by
  refine .perform fun v answer w' hint hans => ?_
  have hafter : Standing (f answer) (past ++ [⟨v, op, answer, w'⟩]) w' := by
    cases hstanding.interfered hint with
    | sound keep holds nodup held => exact h past v answer w' holds nodup held keep hans
    | spoilt failed spoilt => exact Standing.spoilt_later failed spoilt _
  exact ⟨hafter.closing, hafter⟩

/-- A call that opens and closes nothing. -/
theorem plain {op : Sys} (hopens : op.opens = false) (hcloses : op.closes? = none) :
    Leaves codec S (TitoOS.sys op) fun _ => S := by
  refine .sys fun past v answer w' holds nodup held keep hans => ?_
  have hturn : FileEvent.turn? ⟨v, op, answer, w'⟩ = none := by
    cases op with
    | openRoot | openAt => cases hopens
    | close | fdopen | closeHandle => cases hcloses
    | _ => rfl
  have hwrap : FileEvent.wrapFailed ⟨v, op, answer, w'⟩ = false := by
    cases op with
    | fdopen => cases hcloses
    | _ => rfl
  refine .sound (wrapsKeep_concat.mpr ⟨keep, hwrap⟩) (holds.other hturn) nodup fun fd hfd => ?_
  exact hans.1.held_kept (held fd hfd) (by simp [hcloses])

/-- What a call that opens a descriptor leaves. -/
def opened (S : List Fd) : Except Raised Fd → List Fd
  | .ok fd => fd :: S
  | .error _ => S

theorem openRoot : Leaves codec S (TitoOS.sys .openRoot) (opened S) := by
  refine .sys fun past v answer w' holds nodup held keep ⟨hans, _⟩ => ?_
  have hkeep : WrapsKeep (past ++ [⟨v, .openRoot, answer, w'⟩]) := wrapsKeep_concat.mpr ⟨keep, rfl⟩
  cases answer with
  | error =>
    exact .sound hkeep (holds.other rfl) nodup fun fd hfd => hans.held_kept (held fd hfd) nofun
  | ok fd =>
    obtain ⟨-, hfresh, rfl⟩ := hans
    exact .opened holds nodup held hkeep rfl hfresh rfl

theorem openAt {dir : Fd} {name : String} {flags : OpenFlags} :
    Leaves codec S (TitoOS.sys (.openAt dir name flags)) (opened S) := by
  refine .sys fun past v answer w' holds nodup held keep ⟨hans, _⟩ => ?_
  have hkeep : WrapsKeep (past ++ [⟨v, .openAt dir name flags, answer, w'⟩]) :=
    wrapsKeep_concat.mpr ⟨keep, rfl⟩
  cases answer with
  | error =>
    exact .sound hkeep (holds.other rfl) nodup fun fd hfd => hans.held_kept (held fd hfd) nofun
  | ok fd =>
    obtain ⟨-, hfresh, i, hheld, -⟩ := hans
    exact .opened holds nodup held hkeep rfl hfresh hheld

/-- `os.close` of an open descriptor does not fail. -/
theorem close {fd : Fd} (f : Except Raised Unit → List Fd) (hf : f (.ok ()) = S) :
    Leaves codec (fd :: S) (TitoOS.sys (.close fd)) f := by
  refine .sys fun past v answer w' holds nodup held keep ⟨hans, hcloses⟩ => ?_
  have hok := hcloses fd rfl (held fd (by simp))
  cases answer with
  | error => cases hok
  | ok =>
    rw [hf]
    exact .closed holds nodup (wrapsKeep_concat.mpr ⟨keep, rfl⟩) rfl fun x hx hne =>
      hans.held_kept (held x (by simp [hx])) (by simpa [Sys.closes?] using Ne.symm hne)

theorem closeHandle {handle : Handle} :
    Leaves codec (handle.fd :: S) (TitoOS.sys (.closeHandle handle)) fun _ => S := by
  refine .sys fun past v answer w' holds nodup held keep ⟨hans, _⟩ => ?_
  exact .closed holds nodup (wrapsKeep_concat.mpr ⟨keep, rfl⟩) rfl fun x hx hne =>
    hans.held_kept (held x (by simp [hx])) (by simpa [Sys.closes?] using Ne.symm hne)

/-- What `os.fdopen` with its `except` clause leaves. -/
def wrapped (S : List Fd) : Except Raised Handle → List Fd
  | .ok handle => handle.fd :: S
  | .error _ => S

/-- The `except` clause, when the descriptor is still open. -/
theorem closeAndRaise {fd : Fd} (x : Raised) : Leaves codec (fd :: S) (do
    TitoOS.sys (.close fd)
    (raising x : FileProg Handle)) (wrapped S) :=
  bind (close (fun _ => S) rfl) (fun _ => done (.error x) rfl) fun _ => rfl

/-- The `except` clause, when the descriptor was closed before: it closes it again. -/
theorem closeAgain {fd : Fd} {x : Raised} (failed : ¬WrapsKeep past)
    (holds : Custody.Holds FileEvent.turn? S past) (hfd : fd ∉ S) :
    (do
      TitoOS.sys (.close fd)
      (raising x : FileProg Handle)).Guarded (closingSystem codec) ClosesSafely
      (fun outcome past w => Standing (wrapped S' outcome) past w) past w := by
  refine .bind (.perform fun v answer w' hint hans => ?_)
  have hspoilt : ∀ S, Standing S (past ++ [⟨v, .close fd, answer, w'⟩]) w' := fun S =>
    .spoilt (fun h => failed (wrapsKeep_concat.mp h).1) (holds.spoilt rfl hfd)
  refine ⟨(hspoilt []).closing, ?_⟩
  cases answer with
  | ok | error => exact hspoilt _

/-- **`os.fdopen` with its `except` clause** either hands the descriptor on to the
file object or closes it, unless it fails after having wrapped it: it has gone
wrong by the end of the clause then. -/
theorem fdopen {fd : Fd} {mode encoding : String} :
    Leaves codec (fd :: S) ((TitoOS.sys (.fdopen fd mode encoding)).catching fun x => do
      TitoOS.sys (.close fd)
      raising x) (wrapped S) := by
  intro past w hstanding
  refine .catching (.perform fun v answer w' hint hans => ?_)
  cases hstanding.interfered hint with
  | spoilt failed spoilt =>
    have hlater : ∀ S, Standing S (past ++ [⟨v, .fdopen fd mode encoding, answer, w'⟩]) w' :=
      fun S => .spoilt_later failed spoilt _
    refine ⟨(hlater []).closing, ?_⟩
    cases answer with
    | ok => exact hlater _
    | error x => exact closeAndRaise x _ _ (hlater _)
  | sound keep holds nodup held =>
    obtain ⟨hfd, hS⟩ := List.nodup_cons.mp nodup
    cases answer with
    | ok handle =>
      obtain ⟨⟨rfl, hwraps, -⟩, -⟩ := hans
      have hafter : Standing (fd :: S)
          (past ++ [⟨w', .fdopen fd mode encoding, .ok handle, w'⟩]) w' :=
        .sound (wrapsKeep_concat.mpr ⟨keep, rfl⟩) (holds.other rfl) nodup held
      refine ⟨hafter.closing, ?_⟩
      rw [← hwraps] at hafter ⊢
      exact hafter
    | error x =>
      -- when wrapping fails, Python may have closed the descriptor already
      by_cases hkept : fd ∈ w'.held.keys
      · have hafter : Standing (fd :: S)
            (past ++ [⟨v, .fdopen fd mode encoding, .error x, w'⟩]) w' := by
          refine .sound (wrapsKeep_concat.mpr ⟨keep, by simp [FileEvent.wrapFailed, hkept]⟩)
            (holds.other (by simp [FileEvent.turn?, hkept])) nodup fun y hy => ?_
          by_cases hne : y = fd
          · exact hne ▸ hkept
          · exact hans.1.held_kept (held y hy) (by simpa [Sys.closes?] using Ne.symm hne)
        exact ⟨hafter.closing, closeAndRaise x _ _ hafter⟩
      · have hfailed : ¬WrapsKeep (past ++ [⟨v, .fdopen fd mode encoding, .error x, w'⟩]) :=
          fun h => by simpa [FileEvent.wrapFailed, hkept] using (wrapsKeep_concat.mp h).2
        have hholds := holds.release
          (e := (⟨v, .fdopen fd mode encoding, .error x, w'⟩ : FileEvent))
          (by simp [FileEvent.turn?, hkept]) hfd
        exact ⟨fun h => absurd h hfailed, closeAgain hfailed hholds hfd⟩

theorem exceptOSError {p : FileProg α} {handler : Errno → FileProg α}
    {f f' : Except Raised α → List Fd} (h : Leaves codec S p f) (hok : ∀ a, f' (.ok a) = f (.ok a))
    (herror : ∀ x, f' (.error x) = f (.error x))
    (hhandler : ∀ exc, Leaves codec (f (.error (.osError exc))) (handler exc) f') :
    Leaves codec S (TitoOS.exceptOSError p handler) f' :=
  h.catching hok fun x => by
    cases x with
    | osError exc => exact hhandler exc
    | _ => exact done (.error _) (herror _)

end Leaves

/-- The program ends with the descriptors it began with. -/
abbrev Restores (codec : Codec) {α : Type} (S : List Fd) (p : FileProg α) : Prop :=
  Leaves codec S p fun _ => S

namespace Restores

theorem done (outcome : Except Raised α) : Restores codec S (Program.done outcome) :=
  Leaves.done outcome rfl

theorem bind {p : FileProg α} {g : α → FileProg β} (h : Restores codec S p)
    (hg : ∀ a, Restores codec S (g a)) : Restores codec S (p >>= g) :=
  Leaves.bind h hg fun _ => rfl

theorem exceptOSError {p : FileProg α} {handler : Errno → FileProg α} (h : Restores codec S p)
    (hhandler : ∀ exc, Restores codec S (handler exc)) :
    Restores codec S (TitoOS.exceptOSError p handler) :=
  Leaves.exceptOSError h (fun _ => rfl) (fun _ => rfl) hhandler

end Restores

/-- The call neither opens nor closes a descriptor. -/
def Sys.Passive (op : Sys) : Prop := op.opens = false ∧ op.closes? = none

/-- A program that neither opens nor closes leaves what it finds. -/
theorem restores_of_passive {p : FileProg α} (h : p.Calls Sys.Passive) : Restores codec S p := by
  induction p with
  | ret a => exact .done (.ok a)
  | throw x => exact .done (.error x)
  | call op rest ih =>
    obtain ⟨hop, hrest⟩ := h
    rw [Program.call_eq_andThen]
    exact (Leaves.plain hop.1 hop.2).andThen fun answer => ih answer (hrest answer)

namespace FileSystemIntegration

variable {self : FileSystemIntegration} {path operation : String}

/-! ## The walk -/

theorem escaped_restores {exc : Errno} {place : Option (String × Fd)} :
    Restores codec S (escaped exc place) := by
  unfold escaped
  split
  · exact .done (.ok true)
  · split
    · split
      · have hstat : ∀ dir part, Restores codec S (TitoOS.sys (.statAt dir part)) :=
          fun _ _ => .plain rfl rfl
        exact ((hstat _ _).bind fun _ => .done (.ok _)).exceptOSError fun _ => .done (.ok false)
      · exact .done (.ok false)
    · exact .done (.ok false)

theorem describeOserror_leaves {exc : Errno} {place : Option (String × Fd)}
    {f : Except Raised α → List Fd} (hf : ∀ x, f (.error x) = S) :
    Leaves codec S (do
      let x ← self.describeOserror exc path operation place
      (raising x : FileProg α)) f := by
  have hdescribe : Restores codec S (self.describeOserror exc path operation place) :=
    escaped_restores.bind fun _ => .done (.ok _)
  exact Leaves.bind hdescribe (fun x => .done (.error x) (hf x)) hf

theorem openAt_leaves {fd : Fd} {name : String} {flags : OpenFlags}
    {place : Option (String × Fd)} :
    Leaves codec S (TitoOS.exceptOSError (TitoOS.sys (.openAt fd name flags)) fun exc => do
      let x ← self.describeOserror exc path operation place
      raising x) (Leaves.opened S) :=
  .exceptOSError .openAt (fun _ => rfl) (fun _ => rfl) fun _ => describeOserror_leaves fun _ => rfl

theorem enter_leaves {create : Bool} {part : String} {fd : Fd} :
    Leaves codec S (self.enter path operation create part fd) (Leaves.opened S) := by
  unfold enter
  cases create with
  | false => exact openAt_leaves
  | true =>
    have hmkdir : Restores codec S (TitoOS.sys (.mkdirAt fd part)) := .plain rfl rfl
    have hmade : Restores codec S (TitoOS.exceptOSError (TitoOS.sys (.mkdirAt fd part)) fun exc =>
        if exc = .EEXIST then pure () else raising (.osError exc)) := by
      refine hmkdir.exceptOSError fun exc => ?_
      split
      · exact .done (.ok ())
      · exact .done (.error _)
    exact Leaves.bind hmade (fun _ => openAt_leaves) fun _ => rfl

/-- **The walk** closes the descriptor it starts with and those it opens. -/
theorem walkFrom_leaves {create : Bool} {block : Fd → FileProg α}
    (hblock : ∀ fd, Restores codec (fd :: S) (block fd)) (components : List String) (fd : Fd) :
    Leaves codec (fd :: S) (self.walkFrom path operation create block components fd)
      fun _ => S := by
  have hfinally : ∀ x fd, Leaves codec (fd :: S)
      ((raising x : FileProg α).finallyDo (TitoOS.sys (.close fd))) fun _ => S := fun x fd =>
    .finallyDo (Restores.done (.error x)) (.close _ rfl)
  induction components generalizing fd with
  | nil => exact Leaves.finallyDo (hblock fd) (.close _ rfl)
  | cons part rest ih =>
    refine enter_leaves.andThen fun outcome => ?_
    cases outcome with
    | error x => exact hfinally x fd
    | ok nxt =>
      -- both are open now, and `fd` is closed
      have hclose : Leaves codec (fd :: nxt :: S) (TitoOS.sys (.close fd))
          (fun | .ok () => nxt :: S | .error _ => fd :: S) := .close _ rfl
      refine (hclose.perm (List.Perm.swap fd nxt S)).andThen fun outcome => ?_
      cases outcome with
      | ok => exact ih nxt
      | error x => exact hfinally x fd

theorem walk_restores {parts : List String} {create includeLast : Bool} {block : Fd → FileProg α}
    (hblock : ∀ fd, Restores codec (fd :: S) (block fd)) :
    Restores codec S (self.walk parts path operation create includeLast block) :=
  Leaves.bind .openRoot (fun fd => walkFrom_leaves hblock _ fd) fun _ => rfl

/-- **Opening a file**: what `os.open` gives goes into the file object. -/
theorem openFile_restores {flags : OpenFlags} {mode encoding : String} {writable : Bool}
    {block : Handle → FileProg α} (hblock : ∀ S handle, Restores codec S (block handle)) :
    Restores codec S (self.openFile path operation flags mode encoding writable block) := by
  refine Restores.bind (.done _) fun parts => ?_
  cases parts.getLast? with
  | none => exact .done (.error _)
  | some last =>
    refine walk_restores fun dir => ?_
    refine Leaves.bind openAt_leaves (fun fd => ?_) fun _ => rfl
    refine Leaves.bind .fdopen (fun handle => ?_) fun _ => rfl
    exact Leaves.finallyDo (hblock _ handle) .closeHandle

/-! ## Operations -/

theorem readText_restores {encoding : String} :
    Restores codec S (self.readText path encoding) := by
  refine .exceptOSError (openFile_restores fun S handle => ?_) fun _ => .done (.error _)
  refine Restores.bind (.plain rfl rfl) fun size => ?_
  split
  · exact .done (.error _)
  · exact .plain rfl rfl

theorem writing_restores {flags : OpenFlags} {mode encoding : String} {x : Errno → Raised}
    {y : Raised} {block : Handle → FileProg Int} {size : Nat}
    (hblock : ∀ S handle, Restores codec S (block handle)) :
    Restores codec S (if size > self.maxBytes then raising y
      else TitoOS.exceptOSError (self.openFile path operation flags mode encoding true block)
        fun exc => raising (x exc)) := by
  split
  · exact .done (.error _)
  · exact .exceptOSError (openFile_restores hblock) fun _ => .done (.error _)

theorem writeText_restores {content encoding : String} :
    Restores codec S (self.writeText codec path content encoding) :=
  .bind (.done _) fun _ => .bind (.done _) fun _ => writing_restores fun _ _ => .plain rfl rfl

theorem appendText_restores {content encoding : String} :
    Restores codec S (self.appendText codec path content encoding) := by
  refine .bind (.done _) fun _ => .bind (.done _) fun addition =>
    writing_restores fun S handle => Restores.bind (.plain rfl rfl) fun size => ?_
  split
  · exact .done (.error _)
  · exact .plain rfl rfl

theorem listDir_restores : Restores codec S (self.listDir path) :=
  .bind (.done _) fun _ =>
    .bind (.exceptOSError (walk_restores fun _ => .plain rfl rfl) fun _ => .done (.error _))
      fun _ => .done (.ok _)

theorem pathExists_restores : Restores codec S (self.pathExists path) := by
  refine .bind (.done _) fun parts => ?_
  split
  · exact .done (.ok true)
  · refine .bind (.exceptOSError (.bind (walk_restores fun _ => .plain rfl rfl)
      fun _ => .done (.ok _)) fun exc => ?_) fun info => ?_
    · split
      · exact .done (.ok none)
      · exact .done (.error _)
    · split
      · exact .done (.ok false)
      · split
        · exact .done (.error _)
        · exact .done (.ok true)

theorem delete_restores {missingOk : Bool} :
    Restores codec S (self.delete path missingOk) := by
  refine .bind (.done _) fun parts => ?_
  split
  · exact .done (.error _)
  · refine .exceptOSError (.bind (walk_restores fun _ => .plain rfl rfl) fun _ =>
      .done (.ok true)) fun exc => ?_
    split
    · split
      · exact .done (.ok false)
      · exact .done (.error _)
    · exact .done (.error _)

/-- **An operation** closes what it has opened. -/
theorem perform_restores (r : FileRequest) : Restores codec S (self.perform codec r) := by
  cases r with
  | readText => exact readText_restores
  | writeText => exact writeText_restores
  | appendText => exact appendText_restores
  | listDir => exact listDir_restores
  | pathExists => exact pathExists_restores
  | delete => exact delete_restores

end FileSystemIntegration

/-! ## Exactly once -/

theorem standing_start (w : FileWorld) : Standing [] [] w :=
  .sound (fun _ h => absurd h List.not_mem_nil) Custody.holds_nil List.nodup_nil
    fun _ h => absurd h List.not_mem_nil

namespace Restores

variable {p q : FileProg α} {es : List FileEvent} {u : FileWorld} {outcome : Except Raised α}

/-- At no point has a closed descriptor been closed, if no `os.fdopen` has failed
after wrapping. -/
theorem closesOpen (h : Restores codec [] p)
    (hexec : Program.Exec (closingSystem codec) p w es q u) (hkeep : WrapsKeep es) :
    ClosesOpen es := by
  obtain ⟨haccepted, -⟩ := (h [] w (standing_start w)).sound hexec
  rcases List.eq_nil_or_concat es with rfl | ⟨init, e, rfl⟩
  · exact Custody.holds_nil.orderly
  · rw [List.concat_eq_append] at haccepted hkeep ⊢
    exact permits_of_accepted haccepted hkeep

/-- In the end everything has been closed once exactly if none has. -/
theorem closedOnce_iff (h : Restores codec [] p)
    (hexec : Program.Exec (closingSystem codec) p w es (Program.done outcome) u) :
    ClosedOnce es ↔ WrapsKeep es := by
  have hstanding : Standing [] es u := (h [] w (standing_start w)).outcome hexec
  rw [ClosedOnce, Custody.releasedOnce_iff]
  cases hstanding with
  | sound keep holds => exact ⟨fun _ => keep, fun _ => holds⟩
  | spoilt failed spoilt =>
    exact ⟨fun holds => absurd spoilt holds.not_spoilt, fun keep => absurd keep failed⟩

end Restores

/-- A `with` statement on one of the driver's generators, whose block neither
opens nor closes a descriptor. -/
inductive FileSystemIntegration.With (self : FileSystemIntegration) : FileProg α → Prop
  | walk {parts : List String} {path operation : String} {create includeLast : Bool}
      {block : Fd → FileProg α} (h : ∀ fd, (block fd).Calls Sys.Passive) :
      With self (self.walk parts path operation create includeLast block)
  | openFile {path operation : String} {flags : OpenFlags} {mode encoding : String}
      {writable : Bool} {block : Handle → FileProg α}
      (h : ∀ handle, (block handle).Calls Sys.Passive) :
      With self (self.openFile path operation flags mode encoding writable block)

theorem FileSystemIntegration.With.restores {self : FileSystemIntegration} {p : FileProg α}
    (h : self.With p) : Restores codec S p := by
  cases h with
  | walk h => exact walk_restores fun fd => restores_of_passive (h fd)
  | openFile h => exact openFile_restores fun S handle => restores_of_passive (h handle)

/-- **Descriptors are closed exactly once**, whatever fails and whatever the block
raises, exactly if no `os.fdopen` fails after it has wrapped its descriptor; and
until then no closed descriptor is closed at any point. -/
theorem closed_once_iff {self : FileSystemIntegration} {p : FileProg α} (h : self.With p)
    {es : List FileEvent} :
    (∀ q u, Program.Exec (closingSystem codec) p w es q u → WrapsKeep es → ClosesOpen es)
    ∧ ∀ outcome u, Program.Exec (closingSystem codec) p w es (Program.done outcome) u →
        (ClosedOnce es ↔ WrapsKeep es) :=
  ⟨fun _ _ hexec => h.restores.closesOpen hexec, fun _ _ hexec => h.restores.closedOnce_iff hexec⟩

/-- The same of every operation of the driver. -/
theorem perform_closed_once_iff {self : FileSystemIntegration} {r : FileRequest}
    {es : List FileEvent} {outcome : Except Raised r.Result} {u : FileWorld}
    (hexec : Program.Exec (closingSystem codec) (self.perform codec r) w es
      (Program.done outcome) u) : ClosedOnce es ↔ WrapsKeep es :=
  (FileSystemIntegration.perform_restores r).closedOnce_iff hexec

/-- A file that is read. -/
def readingFile (encoding : String) : FileProg String :=
  sandbox.openFile "a/b" "read_text" {} "r" encoding false fun handle => TitoOS.sys (.read handle)

theorem readingFile_with (encoding : String) : sandbox.With (readingFile encoding) :=
  .openFile fun handle => ⟨⟨rfl, rfl⟩, fun answer => by cases answer <;> trivial⟩

/-- As far as `os.open` of the file. -/
def openedEvents : List FileEvent :=
  [⟨swapWorld 1 [], .openRoot, .ok 3, swapWorld 1 [(3, 0)]⟩,
   ⟨swapWorld 1 [(3, 0)], .openAt 3 "a" { directory := true, nofollow := true }, .ok 4,
    swapWorld 1 [(3, 0), (4, 1)]⟩,
   ⟨swapWorld 1 [(3, 0), (4, 1)], .close 3, .ok (), swapWorld 1 [(4, 1)]⟩,
   ⟨swapWorld 1 [(4, 1)], .openAt 4 "b" { nofollow := true }, .ok 5,
    swapWorld 1 [(4, 1), (5, 2)]⟩]

/-- The file is read. -/
def readEvents : List FileEvent := openedEvents ++
  [⟨swapWorld 1 [(4, 1), (5, 2)], .fdopen 5 "r" "ascii", .ok ⟨5, "ascii", true⟩,
    swapWorld 1 [(4, 1), (5, 2)]⟩,
   ⟨swapWorld 1 [(4, 1), (5, 2)], .read ⟨5, "ascii", true⟩, .ok "", swapWorld 1 [(4, 1), (5, 2)]⟩,
   ⟨swapWorld 1 [(4, 1), (5, 2)], .closeHandle ⟨5, "ascii", true⟩, .ok (), swapWorld 1 [(4, 1)]⟩,
   ⟨swapWorld 1 [(4, 1)], .close 4, .ok (), swapWorld 1 []⟩]

/-- The encoding is unknown, which `os.fdopen` notices after wrapping. -/
def unknownEvents : List FileEvent := openedEvents ++
  [⟨swapWorld 1 [(4, 1), (5, 2)], .fdopen 5 "r" "nope", .error .lookupError,
    swapWorld 1 [(4, 1)]⟩,
   ⟨swapWorld 1 [(4, 1)], .close 5, .ok (), swapWorld 1 [(4, 1)]⟩,
   ⟨swapWorld 1 [(4, 1)], .close 4, .ok (), swapWorld 1 []⟩]

theorem openedEvents_exec {encoding : String} {es : List FileEvent} {q : FileProg String}
    {u : FileWorld}
    (h : Program.Exec (closingSystem ascii)
      ((do
        let handle ← (sys (.fdopen 5 "r" encoding)).catching fun x => do
          sys (.close 5)
          raising x
        Program.finallyDo (sys (.read handle)) (sys (.closeHandle handle)) :
          FileProg String).finallyDo (sys (.close 4)))
      (swapWorld 1 [(4, 1), (5, 2)]) es q u) :
    Program.Exec (closingSystem ascii) (readingFile encoding) (swapWorld 1 [])
      (openedEvents ++ es) q u := by
  have hparts : sandbox.parts "a/b" "read_text" = .ok ["a", "b"] := by decide
  have hdir : FileWorld.OpensEntry (swapTree 1) 0 "a" { directory := true, nofollow := true } 1
      (swapTree 1) := .existing rfl rfl nofun fun _ => rfl
  have hfile : FileWorld.OpensEntry (swapTree 1) 1 "b" { nofollow := true } 2 (swapTree 1) :=
    .existing rfl rfl nofun nofun
  unfold readingFile FileSystemIntegration.openFile
  rw [if_neg (by decide), hparts]
  refine .call ⟨rfl, rfl⟩ ⟨⟨rfl, by decide, rfl⟩, nofun⟩
    (.call ⟨rfl, rfl⟩ ⟨⟨by decide, by decide, 1, rfl, hdir⟩, nofun⟩
    (.call ⟨rfl, rfl⟩ ⟨rfl, fun _ _ _ => rfl⟩
    (.call ⟨rfl, rfl⟩ ⟨⟨by decide, by decide, 2, rfl, hfile⟩, nofun⟩ h)))

theorem readEvents_exec : Program.Exec (closingSystem ascii) (readingFile "ascii") (swapWorld 1 [])
    readEvents (Program.done (.ok "")) (swapWorld 1 []) := by
  refine openedEvents_exec (.call ⟨rfl, rfl⟩ ⟨⟨rfl, rfl, rfl, fun _ _ _ _ => rfl⟩, nofun⟩
    (.call ⟨rfl, rfl⟩ ⟨⟨rfl, ?_⟩, nofun⟩ (.call ⟨rfl, rfl⟩ ⟨⟨rfl, rfl⟩, nofun⟩
    (.call ⟨rfl, rfl⟩ ⟨rfl, fun _ _ _ => rfl⟩ .stop))))
  rintro i content ⟨⟩ ⟨⟩
  rfl

theorem unknownEvents_exec : Program.Exec (closingSystem ascii) (readingFile "nope")
    (swapWorld 1 []) unknownEvents (Program.done (.error .lookupError)) (swapWorld 1 []) :=
  openedEvents_exec (.call ⟨rfl, rfl⟩ ⟨⟨.inr rfl, .inr (.inl rfl)⟩, nofun⟩
    (.call ⟨rfl, rfl⟩ ⟨rfl, fun _ _ _ => rfl⟩ (.call ⟨rfl, rfl⟩ ⟨rfl, fun _ _ _ => rfl⟩ .stop)))

/-- The file that could be read has been closed once. -/
theorem closed_once_iff_read : ClosedOnce readEvents := by
  refine ((closed_once_iff (readingFile_with "ascii")).2 _ _ readEvents_exec).mpr ?_
  decide

/-- **A descriptor is closed twice**, when the encoding is unknown. -/
theorem closed_twice : ∃ es outcome u, Program.Exec (closingSystem ascii) (readingFile "nope")
    (swapWorld 1 []) es (Program.done outcome) u ∧ ¬ClosedOnce es := by
  refine ⟨_, _, _, unknownEvents_exec, fun hclosed => ?_⟩
  have hholds := Custody.releasedOnce_iff.mp hclosed
  exact absurd (hholds 5) (by decide)

end TitoOS
