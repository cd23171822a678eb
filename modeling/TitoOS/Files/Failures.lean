import TitoOS.Files.Driver

/-!
# What the filesystem driver raises

The driver wraps `OSError`, and nothing else, in `IntegrationError`. So an
operation that makes calls ends in another exception exactly when the last call
to fail raised something else (`perform_outcome`), whatever the calls in the
`except` and `finally` clauses do.
-/

namespace TitoOS

/-- Neither an `OSError` nor an `IntegrationError`. -/
def Raised.foreign : Raised → Bool
  | .osError _ | .integration _ => false
  | .valueError | .unicodeError | .lookupError => true

/-- A result, or an `IntegrationError`. -/
def Raised.Expected {α : Type} : Except Raised α → Prop
  | .ok _ => True
  | .error x => ∃ e, x = .integration e

/-- The last call to fail failed with something else than an `OSError`. -/
def strayFailure (es : List FileEvent) : Bool := spoiled (fun _ x => Raised.foreign x) es

/-- The operation is tracked by its calls. -/
abbrev FileProg.Tracks {α : Type} (codec : Codec) (p : FileProg α) : Prop :=
  Program.Tracks (operatingSystem codec) (fun _ x => Raised.foreign x) Raised.foreign p

variable {codec : Codec} {α : Type}

theorem sys_follows {op : Sys} : Program.Follows (operatingSystem codec)
    (fun _ x => Raised.foreign x) Raised.foreign (sys op) := Program.follows_perform fun _ => rfl

theorem sys_tracks {op : Sys} : FileProg.Tracks codec (sys op) := sys_follows.tracks

theorem exceptOSError_tracks {p : FileProg α} {handler : Errno → FileProg α}
    (h : FileProg.Tracks codec p) (hhandler : ∀ exc, FileProg.Tracks codec (handler exc)) :
    FileProg.Tracks codec (exceptOSError p handler) := by
  refine Program.Tracks.catching h fun x past w hx => ?_
  cases x with
  | osError exc => exact hhandler exc past w hx
  | _ => exact .throw hx

namespace FileSystemIntegration

variable {self : FileSystemIntegration} {path operation : String}

theorem escaped_tracks {exc : Errno} {place : Option (String × Fd)} :
    FileProg.Tracks codec (escaped exc place) := by
  unfold escaped
  split
  · exact .ret _
  · split
    · split
      · exact exceptOSError_tracks (.bind sys_tracks fun _ => .ret _) fun _ => .ret _
      · exact .ret _
    · exact .ret _

/-- What `_parts` and `_writable` raise is an `IntegrationError`. -/
theorem parts_expected : Raised.Expected (self.parts path operation) := by
  unfold parts
  simp only
  split
  · exact ⟨_, rfl⟩
  · split
    · exact ⟨_, rfl⟩
    · trivial

theorem writable_expected : Raised.Expected (self.writable path operation) := by
  unfold writable
  split
  · exact ⟨_, rfl⟩
  · exact parts_expected

theorem done_tracks {outcome : Except Raised α} (h : Raised.Expected outcome) :
    FileProg.Tracks codec (Program.done outcome) := by
  cases outcome with
  | ok => exact .ret _
  | error x =>
    obtain ⟨e, rfl⟩ := h
    exact .throw rfl

theorem parts_tracks (writable : Bool) : FileProg.Tracks codec (Program.done
    (if writable then self.writable path operation else self.parts path operation)) := by
  split
  · exact done_tracks writable_expected
  · exact done_tracks parts_expected

/-- What `_describe_oserror` returns is raised. -/
theorem describeOserror_tracks {exc : Errno} {place : Option (String × Fd)} :
    FileProg.Tracks codec (do
      let x ← self.describeOserror exc path operation place
      (raising x : FileProg α)) := by
  intro past w hpast
  refine Program.Guarded.bind (Program.Guarded.bind
    ((escaped_tracks past w hpast).mono fun outcome past w hout => ?_))
  cases outcome with
  | error => exact hout
  | ok isEscape =>
    cases isEscape with
    | true | false => exact hout

theorem openAt_tracks {fd : Fd} {name : String} {flags : OpenFlags}
    {place : Option (String × Fd)} :
    FileProg.Tracks codec (exceptOSError (sys (.openAt fd name flags)) fun exc => do
      let x ← self.describeOserror exc path operation place
      raising x) :=
  exceptOSError_tracks sys_tracks fun _ => describeOserror_tracks

theorem enter_tracks {create : Bool} {part : String} {fd : Fd} :
    FileProg.Tracks codec (self.enter path operation create part fd) := by
  unfold enter
  split
  · refine .bind (exceptOSError_tracks sys_tracks fun exc => ?_) fun _ => openAt_tracks
    split
    · exact .ret _
    · exact .throw rfl
  · exact openAt_tracks

theorem walkFrom_tracks {create : Bool} {block : Fd → FileProg α}
    (hblock : ∀ fd, FileProg.Tracks codec (block fd)) (components : List String) (fd : Fd) :
    FileProg.Tracks codec (self.walkFrom path operation create block components fd) := by
  induction components generalizing fd with
  | nil => exact fun past w hpast => (hblock fd past w hpast).finallyDo (sys_follows)
  | cons part rest ih =>
    refine fun past w hpast => (enter_tracks past w hpast).andThen fun outcome past w hout => ?_
    cases outcome with
    | error x => exact .finallyDo (.throw hout) sys_follows
    | ok nxt =>
      refine (sys_tracks past w hout).andThen fun outcome past w hout => ?_
      cases outcome with
      | error x => exact .finallyDo (.throw hout) sys_follows
      | ok => exact ih nxt past w hout

theorem walk_tracks {parts : List String} {create includeLast : Bool} {block : Fd → FileProg α}
    (hblock : ∀ fd, FileProg.Tracks codec (block fd)) :
    FileProg.Tracks codec (self.walk parts path operation create includeLast block) :=
  .bind sys_tracks fun fd => walkFrom_tracks hblock _ fd

theorem openFile_tracks {flags : OpenFlags} {mode encoding : String} {writable : Bool}
    {block : Handle → FileProg α} (hblock : ∀ handle, FileProg.Tracks codec (block handle)) :
    FileProg.Tracks codec (self.openFile path operation flags mode encoding writable block) := by
  unfold openFile
  refine .bind (parts_tracks writable) fun parts => ?_
  split
  · exact .throw rfl
  · refine walk_tracks fun dir => .bind openAt_tracks fun fd => .bind ?_ fun handle past w hpast =>
      (hblock handle past w hpast).finallyDo sys_follows
    -- `except Exception: os.close(fd); raise`
    refine .catching sys_tracks fun x past w hx => Program.Guarded.bind
      ((sys_follows past w).mono fun outcome past' w' hout => ?_)
    cases outcome with
    | ok => exact hout.trans hx
    | error => exact hout

end FileSystemIntegration

/-! ## Operations -/

/-- The operation ends in what is expected of it exactly when no stray failure
was the last. -/
def FileProg.Reports (codec : Codec) (p : FileProg α) : Prop :=
  ∀ past w, strayFailure past = false → p.Guarded (operatingSystem codec) (fun _ _ => True)
    (fun outcome past _ => Raised.Expected outcome ↔ strayFailure past = false) past w

namespace FileProg.Reports

variable {β : Type}

theorem done {outcome : Except Raised α} (h : Raised.Expected outcome) :
    FileProg.Reports codec (Program.done outcome) := fun _ _ hpast =>
  .of_done ⟨fun _ => hpast, fun _ => h⟩

theorem ret (a : α) : FileProg.Reports codec (pure a) := fun _ _ hpast =>
  ⟨fun _ => hpast, fun _ => trivial⟩

theorem raising (e : IntegrationError) :
    FileProg.Reports codec (TitoOS.raising (.integration e) : FileProg α) := fun _ _ hpast =>
  ⟨fun _ => hpast, fun _ => ⟨e, rfl⟩⟩

/-- `except OSError` around the calls of an operation. -/
theorem exceptOSError {p : FileProg α} {handler : Errno → FileProg α}
    (h : FileProg.Tracks codec p) (hhandler : ∀ exc, FileProg.Reports codec (handler exc)) :
    FileProg.Reports codec (exceptOSError p handler) := fun past w hpast => by
  refine Program.Guarded.catching ((h past w hpast).mono fun outcome past w hout => ?_)
  cases outcome with
  | ok => exact ⟨fun _ => hout, fun _ => trivial⟩
  | error x =>
    cases x with
    | osError exc => exact hhandler exc past w hout
    | integration e => exact ⟨fun _ => hout, fun _ => ⟨e, rfl⟩⟩
    | valueError | unicodeError | lookupError =>
      refine ⟨fun h => ?_, fun h => absurd (h.symm.trans hout) Bool.noConfusion⟩
      obtain ⟨e, he⟩ := h
      cases he

theorem bind {p : FileProg α} {f : α → FileProg β} (h : FileProg.Reports codec p)
    (hf : ∀ a, FileProg.Reports codec (f a)) : FileProg.Reports codec (p >>= f) :=
  fun past w hpast => by
    refine Program.Guarded.bind ((h past w hpast).mono fun outcome past w hout => ?_)
    cases outcome with
    | ok a => exact hf a past w (hout.mp trivial)
    | error => exact hout

end FileProg.Reports

namespace FileSystemIntegration

variable {self : FileSystemIntegration} {path operation : String}

theorem readText_reports {encoding : String} :
    FileProg.Reports codec (self.readText path encoding) := by
  refine .exceptOSError (openFile_tracks fun handle => .bind sys_tracks fun size => ?_)
    fun exc => .raising _
  split
  · exact .throw rfl
  · exact sys_tracks

/-- A check and an encoding come before the calls, and outside their `try`. -/
theorem encoding_outcome {check : Except Raised (List String)} {text : Except Raised (List UInt8)}
    {f : List UInt8 → FileProg α} (hcheck : Raised.Expected check)
    (hf : ∀ bytes, FileProg.Reports codec (f bytes)) {past : List FileEvent} {w : FileWorld}
    (hpast : strayFailure past = false) :
    Program.Guarded (operatingSystem codec) (fun _ _ => True) (fun outcome past _ =>
        Raised.Expected outcome
          ↔ (check.isOk = true → Raised.Expected text) ∧ strayFailure past = false)
      (do
        let _ ← Program.done check
        let bytes ← Program.done text
        f bytes) past w := by
  cases check with
  | error x => exact ⟨fun _ => ⟨fun h => Bool.noConfusion h, hpast⟩, fun _ => hcheck⟩
  | ok parts =>
    cases text with
    | error x => exact ⟨fun h => ⟨fun _ => h, hpast⟩, fun h => h.1 rfl⟩
    | ok bytes =>
      exact (hf bytes past w hpast).mono fun outcome past w hout =>
        hout.trans ⟨fun h => ⟨fun _ => trivial, h⟩, fun h => h.2⟩

theorem writing_reports {flags : OpenFlags} {mode encoding verb : String}
    {block : Handle → FileProg Int} (hblock : ∀ handle, FileProg.Tracks codec (block handle))
    (size : Nat) :
    FileProg.Reports codec (if size > self.maxBytes then
      raising (self.fail (.largeContent self.maxBytes) operation)
    else
      exceptOSError (self.openFile path operation flags mode encoding true block) fun exc =>
        raising (self.fail (.cannot verb path exc) operation)) := by
  split
  · exact .raising _
  · exact .exceptOSError (openFile_tracks hblock) fun _ => .raising _

theorem listDir_reports : FileProg.Reports codec (self.listDir path) :=
  .bind (.done parts_expected) fun _ =>
    .bind (.exceptOSError (walk_tracks fun _ => sys_tracks) fun _ => .raising _) fun _ => .ret _

theorem pathExists_reports : FileProg.Reports codec (self.pathExists path) := by
  refine .bind (.done parts_expected) fun parts => ?_
  split
  · exact .ret _
  · refine .bind (.exceptOSError (.bind (walk_tracks fun _ => sys_tracks) fun _ => .ret _)
      fun exc => ?_) fun info => ?_
    · split
      · exact .ret _
      · exact .raising _
    · split
      · exact .ret _
      · split
        · exact .raising _
        · exact .ret _

theorem delete_reports {missingOk : Bool} :
    FileProg.Reports codec (self.delete path missingOk) := by
  refine .bind (.done writable_expected) fun parts => ?_
  split
  · exact .raising _
  · refine .exceptOSError (.bind (walk_tracks fun _ => sys_tracks) fun _ => .ret _) fun exc => ?_
    split
    · split
      · exact .ret _
      · exact .raising _
    · exact .raising _

/-- The content can be encoded, unless the operation is refused before. -/
def Encodes (self : FileSystemIntegration) (codec : Codec) : FileRequest → Prop
  | .writeText path content encoding =>
      (self.writable path "write_text").isOk = true →
        Raised.Expected (codec.encode encoding content)
  | .appendText path content encoding =>
      (self.writable path "append_text").isOk = true →
        Raised.Expected (codec.encode encoding content)
  | .readText .. | .listDir _ | .pathExists _ | .delete .. => True

/-- **What an operation raises**: it ends in a result or an `IntegrationError`
exactly when the content can be encoded and the last call to fail, if any,
failed with an `OSError`. -/
theorem perform_outcome {r : FileRequest} {w u : FileWorld} {es : List FileEvent}
    {outcome : Except Raised r.Result}
    (h : Program.Exec (operatingSystem codec) (self.perform codec r) w es (Program.done outcome)
      u) :
    Raised.Expected outcome ↔ self.Encodes codec r ∧ strayFailure es = false := by
  have hnone : strayFailure [] = false := rfl
  -- the operations that encode no text
  have hreports : ∀ {p : FileProg r.Result}, FileProg.Reports codec p →
      Program.Exec (operatingSystem codec) p w es (Program.done outcome) u →
      (Raised.Expected outcome ↔ True ∧ strayFailure es = false) := fun hp hexec => by
    simpa using (hp [] w hnone).outcome hexec
  cases r with
  | readText path encoding => exact hreports readText_reports h
  | writeText path content encoding =>
    exact (encoding_outcome writable_expected (fun bytes =>
      writing_reports (fun _ => sys_tracks) bytes.length) hnone).outcome h
  | appendText path content encoding =>
    refine (encoding_outcome writable_expected (fun addition =>
      writing_reports (fun handle => .bind sys_tracks fun size => ?_) addition.length)
      hnone).outcome h
    split
    · exact .throw rfl
    · exact sys_tracks
  | listDir path => exact hreports listDir_reports h
  | pathExists path => exact hreports pathExists_reports h
  | delete path missingOk => exact hreports delete_reports h

end FileSystemIntegration

end TitoOS
