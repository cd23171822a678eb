import TitoOS.Files.Overtaking
import Mathlib.Algebra.Order.BigOperators.Group.List
import Mathlib.Algebra.Order.Group.Nat
import Mathlib.Algebra.Ring.Nat

/-!
# The size limit under concurrency

Calls of `write_text` and `append_text` on one driver, made at the same time by
the agents of a tick. The check of an append is made on the file as it was then,
and the flush comes later. As long as no append is overtaken in a file that the
texts of all calls would overfill, no file becomes too long and no rejected call
leaves a file behind (`keepsLimit_of_order`); and the order cannot be relaxed: a
schedule in which an append is overtaken breaks the limit for some texts
(`order_iff`).

The invariant is `RoomLeft`: what an append relies on at its next step. The bytes
of the calls that can still flush bound the length of a file (`Budgeted`).
-/

namespace TitoOS

/-- `len(content.encode(encoding))`. -/
def WriteCall.size (codec : Codec) (call : WriteCall) : Nat :=
  match codec.encode call.encoding call.content with
  | .ok encoded => encoded.length
  | .error _ => 0

namespace FileSystemIntegration

variable (self : FileSystemIntegration) (codec : Codec) (place : List String → Ino)

/-! ## The limit -/

/-- No file is longer than the limit. -/
def Within (files : FileTable) : Prop :=
  ∀ file content, files.get? file = some content → content.length ≤ self.maxBytes

/-- Among the moves are some of call `k` that changed the files. -/
def Touched (history : List (WriteMove × FileTable × FileTable)) (k : Nat) : Prop :=
  ∃ e ∈ history, e.1.call = k ∧ e.2.2 ≠ e.2.1

/-- What the limit promises of the state a schedule leads to. -/
structure KeepsLimit (driver : FileSystemIntegration) (codec : Codec) (place : List String → Ino)
    (s : SharedFiles) (sched : List WriteMove) : Prop where
  within : driver.Within (driver.scheduled codec place sched s).files
  /-- A call rejected for size neither creates nor modifies a file. -/
  untouched : ∀ k call stage,
    (driver.scheduled codec place sched s).calls[k]? = some (call, stage) →
    driver.RejectedForSize call stage → ¬ Touched (driver.fileHistory codec place sched s) k

/-- What an append at this stage relies on: a file it has made itself still has
room when it is measured, and the file it has measured still has room when the
bytes are flushed. -/
def RoomLeft (files : FileTable) (call : WriteCall) : WriteStage → Prop
  | .opened file addition none =>
    call.op = .appendText → (files.bytes file).length + addition ≤ self.maxBytes
  | .checked file found =>
    (files.bytes file).length + (streamed codec call found).length ≤ self.maxBytes
  | _ => True

/-- The call that moves, unless the system fails it, has the room it relies on. -/
def HasRoom (s : SharedFiles) (m : WriteMove) : Prop :=
  ∀ call stage, s.calls[m.call]? = some (call, stage) → m.fault = none →
    self.RoomLeft codec s.files call stage

/-! ## What a step keeps -/

/-- The text can be encoded, and is not too large. -/
def Accepts (call : WriteCall) : Prop :=
  ∃ encoded, codec.encode call.encoding call.content = .ok encoded
    ∧ encoded.length ≤ self.maxBytes

section Steps

variable {self codec place} {files files' : FileTable} {call : WriteCall}
  {fault : Option CallFault} {stage stage' : WriteStage} {file : Ino} {found : Option Nat}
  {touched : Prop}

theorem size_of_encode {encoded : List UInt8}
    (h : codec.encode call.encoding call.content = .ok encoded) :
    call.size codec = encoded.length := by
  rw [WriteCall.size, h]

theorem Accepts.size_le (h : self.Accepts codec call) : call.size codec ≤ self.maxBytes := by
  obtain ⟨encoded, hencode, hsize⟩ := h
  rwa [size_of_encode hencode]

theorem Accepts.streamed_le (h : self.Accepts codec call) (found : Option Nat) :
    (streamed codec call found).length ≤ call.size codec := by
  obtain ⟨encoded, hencode, -⟩ := h
  rw [size_of_encode hencode]
  exact codec.stream_le hencode _

@[simp] theorem not_rejectedForSize_returned (count : Int) :
    ¬ self.RejectedForSize call (.returned count) := by
  simp [RejectedForSize]

theorem bytes_length_le (h : self.Within files) (file : Ino) :
    (files.bytes file).length ≤ self.maxBytes := by
  unfold FileTable.bytes
  cases hfile : files.get? file with
  | none =>
    have hpos := self.maxBytes_pos
    simpa using Int.le_of_lt hpos
  | some content => exact h file content hfile

theorem Within.set (h : self.Within files) {content : List UInt8}
    (hlength : content.length ≤ self.maxBytes) : self.Within (files.set file content) := by
  intro other content' hother
  rw [Dict.get?_set] at hother
  split at hother
  · obtain rfl := Option.some.inj hother
    exact hlength
  · exact h other content' hother

theorem Within.openedFiles (h : self.Within files) :
    self.Within (openedFiles files call.op file) := by
  have hempty : (([] : List UInt8).length : Int) ≤ self.maxBytes := Int.le_of_lt self.maxBytes_pos
  unfold FileSystemIntegration.openedFiles
  split
  · exact h.set hempty
  · exact h.set hempty
  · exact h

/-- An append that opens its file changes the files when it makes the file, and
only then. -/
theorem openedFiles_ne_iff (happend : call.op = .appendText) :
    openedFiles files call.op file ≠ files ↔ (files.get? file).map List.length = none := by
  rw [happend]
  cases hfile : files.get? file with
  | none =>
    have hne : files.set file [] ≠ files := by
      intro heq
      have hget := Dict.get?_set_self files file []
      rw [heq, hfile] at hget
      cases hget
    simp [openedFiles, hfile, hne]
  | some content => simp [openedFiles, hfile]

variable (self codec call touched) in
/-- What is known of a call by its stage; `touched` says that it has changed the
files. -/
def Noted : WriteStage → Prop
  | .start => ¬ touched
  | .opened _ addition found =>
    self.Accepts codec call ∧ addition = call.size codec
      ∧ (call.op = .appendText → (touched ↔ found = none))
  | .checked .. => self.Accepts codec call
  | .returned _ | .raised _ => True

/-- Every step keeps what is known of the call that moves. -/
theorem Noted.step (h : self.Noted codec call touched stage)
    (hstep : self.Steps codec place files call fault stage files' stage') :
    self.Noted codec call (touched ∨ files' ≠ files) stage' := by
  cases hstep with
  | refused | fails | writes | full | appends => trivial
  | opens htarget hencode hsize =>
    refine ⟨⟨_, hencode, hsize⟩, (size_of_encode hencode).symm, fun happend => ?_⟩
    rw [← openedFiles_ne_iff happend]
    exact or_iff_right h
  | measures => exact h.1
  | ended hended =>
    rcases hended with ⟨count, rfl⟩ | ⟨x, rfl⟩
    · trivial
    · trivial

/-- No step makes a file too long when there is room. -/
theorem Within.step (hwithin : self.Within files) (h : self.Noted codec call touched stage)
    (hroom : fault = none → self.RoomLeft codec files call stage)
    (hstep : self.Steps codec place files call fault stage files' stage') :
    self.Within files' := by
  cases hstep with
  | refused | fails | full | measures | ended => exact hwithin
  | opens => exact hwithin.openedFiles
  | @writes file addition found bytes hop hbytes =>
    -- the bytes replace the start of the file, and may be longer than it
    refine hwithin.set ?_
    have hold := bytes_length_le hwithin file
    have hnew := h.1.streamed_le found
    have hsize := h.1.size_le
    rw [← hbytes] at hnew
    rw [List.length_append, List.length_drop]
    omega
  | appends =>
    refine hwithin.set ?_
    have hfits := hroom rfl
    rw [List.length_append]
    push_cast
    exact hfits

/-- A step that rejects the call for size leaves the files alone, and so have
the steps before when there is room. -/
theorem untouched_step (h : self.Noted codec call touched stage)
    (hold : self.RejectedForSize call stage → ¬ touched)
    (hroom : fault = none → self.RoomLeft codec files call stage)
    (hstep : self.Steps codec place files call fault stage files' stage')
    (hrejected : self.RejectedForSize call stage') : ¬ (touched ∨ files' ≠ files) := by
  cases hstep with
  | refused => exact not_or.mpr ⟨h, fun hne => hne rfl⟩
  | opens | measures => simp [RejectedForSize] at hrejected
  | fails _ hnot => exact absurd hrejected hnot
  | writes | appends => exact absurd hrejected (not_rejectedForSize_returned _)
  | @full file addition found happend hfull =>
    -- a file that the call has made itself is not full
    cases found with
    | none => exact absurd (hroom rfl happend) (by omega)
    | some size => simpa using h.2.2 happend
  | ended => simpa using hold hrejected

/-- Without room, the step makes a file too long, or rejects a call for size
that has changed the files. -/
theorem exceeded_step (h : self.Noted codec call touched stage)
    (hroom : ¬ self.RoomLeft codec files call stage)
    (hstep : self.Steps codec place files call none stage files' stage') :
    ¬ self.Within files' ∨ touched ∧ self.RejectedForSize call stage' := by
  cases hstep with
  | refused | opens => exact absurd trivial hroom
  | @writes file addition found bytes hop =>
    cases found with
    | some => exact absurd trivial hroom
    | none =>
      refine absurd (fun happend => ?_) hroom
      rw [hop] at happend
      cases happend
  | @full file addition found happend hfull =>
    cases found with
    | some => exact absurd trivial hroom
    | none => exact .inr ⟨(h.2.2 happend).mpr rfl, .inr rfl⟩
  | @measures file addition found happend hfits =>
    cases found with
    | some => exact absurd trivial hroom
    | none => exact absurd (fun _ => hfits) hroom
  | appends =>
    refine .inl fun hwithin => hroom ?_
    have hfits := hwithin _ _ (Dict.get?_set_self ..)
    rw [List.length_append] at hfits
    push_cast at hfits
    exact hfits
  | ended hended =>
    rcases hended with ⟨count, rfl⟩ | ⟨x, rfl⟩
    · exact absurd trivial hroom
    · exact absurd trivial hroom

end Steps

/-! ## Runs -/

section Runs

variable {self codec place} {s : SharedFiles} {pre : List WriteMove} {m : WriteMove}

theorem touched_concat {k : Nat} : Touched (self.fileHistory codec place (pre ++ [m]) s) k
    ↔ Touched (self.fileHistory codec place pre s) k ∨ m.call = k
      ∧ (self.scheduled codec place (pre ++ [m]) s).files
        ≠ (self.scheduled codec place pre s).files := by
  have hhistory : self.fileHistory codec place (pre ++ [m]) s
      = self.fileHistory codec place pre s
        ++ [(m, (self.scheduled codec place pre s).files,
          (self.scheduled codec place (pre ++ [m]) s).files)] := by
    rw [scheduled_concat]
    exact Schedule.trace_append ..
  rw [hhistory]
  simp [Touched, or_and_right, exists_or]

variable {calls : List WriteCall} {files : FileTable}

theorem start_of_fresh {k : Nat} {call : WriteCall} {stage : WriteStage}
    (h : (SharedFiles.fresh files calls).calls[k]? = some (call, stage)) : stage = .start :=
  SharedFiles.start_of_mem (List.mem_of_getElem? h)

/-- What is known of every call after a schedule. -/
theorem noted_scheduled {k : Nat} {call : WriteCall} {stage : WriteStage}
    (h : (self.scheduled codec place pre (.fresh files calls)).calls[k]? = some (call, stage)) :
    self.Noted codec call (Touched (self.fileHistory codec place pre (.fresh files calls)) k)
      stage := by
  induction pre using List.reverseRecOn generalizing k call stage with
  | nil =>
    obtain rfl := start_of_fresh h
    rintro ⟨e, he, -⟩
    cases he
  | append_singleton pre m ih =>
    obtain ⟨stage, hbefore, ⟨hk, rfl⟩ | ⟨rfl, hstep⟩⟩ := call_concat h
    · simpa [touched_concat, hk] using ih hbefore
    · have hnoted := (ih hbefore).step hstep
      simpa only [touched_concat, true_and] using hnoted

/-- A move that has room keeps the limit. -/
theorem KeepsLimit.concat (h : self.KeepsLimit codec place (.fresh files calls) pre)
    (hroom : self.HasRoom codec (self.scheduled codec place pre (.fresh files calls)) m) :
    self.KeepsLimit codec place (.fresh files calls) (pre ++ [m]) where
  within := by
    rcases mover_cases self codec place (.fresh files calls) pre m with
      ⟨-, hsame⟩ | ⟨call, stage, stage', hcall, -, hstep⟩
    · rw [hsame]
      exact h.within
    · exact h.within.step (noted_scheduled hcall) (hroom _ _ hcall) hstep
  untouched := by
    intro k call stage' hcall hrejected
    obtain ⟨stage, hbefore, ⟨hk, rfl⟩ | ⟨rfl, hstep⟩⟩ := call_concat hcall
    · simpa [touched_concat, hk] using h.untouched k call stage' hbefore hrejected
    · have huntouched := untouched_step (noted_scheduled hbefore)
        (h.untouched _ _ _ hbefore) (hroom _ _ hbefore) hstep hrejected
      simpa only [touched_concat, true_and] using huntouched

/-- A move that keeps the limit had room. -/
theorem KeepsLimit.hasRoom (h : self.KeepsLimit codec place (.fresh files calls) (pre ++ [m])) :
    self.HasRoom codec (self.scheduled codec place pre (.fresh files calls)) m := by
  intro call stage hcall hfault
  by_contra hroom
  rcases mover_cases self codec place (.fresh files calls) pre m with
    ⟨hnone, -⟩ | ⟨call', stage₁, stage', hcall', hafter, hstep⟩
  · rw [hnone] at hcall
    cases hcall
  · obtain ⟨rfl, rfl⟩ := Prod.mk.inj (Option.some.inj (hcall.symm.trans hcall'))
    rw [hfault] at hstep
    rcases exceeded_step (noted_scheduled hcall) hroom hstep with hlong | ⟨htouched, hrejected⟩
    · exact hlong h.within
    · exact h.untouched m.call call stage' hafter hrejected (touched_concat.mpr (.inl htouched))

end Runs

/-! ## Where the calls stand -/

/-- What the stage of a call says of the steps it has made and of its file. -/
def Placed (files : FileTable) (call : WriteCall) (steps : List (Option CallFault)) :
    WriteStage → Prop
  | .start => steps = []
  | .opened file _ _ => steps = List.replicate 1 none ∧ self.target place call = some file
      ∧ (files.get? file).isSome = true
  | .checked file _ => steps = List.replicate 2 none ∧ call.op = .appendText
      ∧ self.target place call = some file ∧ (files.get? file).isSome = true
  | .returned _ | .raised _ => True

section Placed

variable {self codec place} {files files' : FileTable} {call : WriteCall}
  {fault : Option CallFault} {stage stage' : WriteStage} {file : Ino}
  {steps : List (Option CallFault)}

theorem isSome_set {content : List UInt8} {other : Ino} (h : (files.get? file).isSome = true) :
    ((files.set other content).get? file).isSome = true := by
  rw [Dict.get?_set]
  split
  · rfl
  · exact h

/-- No file disappears. -/
theorem isSome_step (h : (files.get? file).isSome = true)
    (hstep : self.Steps codec place files call fault stage files' stage') :
    (files'.get? file).isSome = true := by
  cases hstep with
  | refused | fails | full | measures | ended => exact h
  | writes | appends => exact isSome_set h
  | opens =>
    unfold openedFiles
    split
    · exact isSome_set h
    · exact isSome_set h
    · exact h

/-- A file that was opened is there. -/
theorem isSome_openedFiles (op : WriteOp) :
    ((openedFiles files op file).get? file).isSome = true := by
  unfold openedFiles
  split
  · simp
  · simp
  · rename_i hfile
    simp [hfile]

theorem Placed.of_grown (h : self.Placed place files call steps stage)
    (hgrown : ∀ file, (files.get? file).isSome = true → (files'.get? file).isSome = true) :
    self.Placed place files' call steps stage := by
  cases stage with
  | start | returned | raised => exact h
  | opened => exact ⟨h.1, h.2.1, hgrown _ h.2.2⟩
  | checked => exact ⟨h.1, h.2.1, h.2.2.1, hgrown _ h.2.2.2⟩

/-- A file that is open is there. -/
theorem Placed.isSome_file (h : self.Placed place files call steps stage)
    (hfile : stage.file? = some file) : (files.get? file).isSome = true := by
  cases stage with
  | start | returned | raised => cases hfile
  | opened =>
    cases hfile
    exact h.2.2
  | checked =>
    cases hfile
    exact h.2.2.2

/-- Every step keeps what the stage says. -/
theorem Placed.step (h : self.Placed place files call steps stage)
    (hstep : self.Steps codec place files call fault stage files' stage') :
    self.Placed place files' call (steps ++ [fault]) stage' := by
  have hgrown : ∀ file, (files.get? file).isSome = true → (files'.get? file).isSome = true :=
    fun file hfile => isSome_step hfile hstep
  cases hstep with
  | refused | fails | writes | full | appends => trivial
  | opens htarget =>
    obtain rfl : steps = [] := h
    exact ⟨rfl, htarget, isSome_openedFiles call.op⟩
  | measures happend =>
    obtain ⟨rfl, htarget, hfile⟩ := h
    exact ⟨rfl, happend, htarget, hfile⟩
  | ended hended =>
    rcases hended with ⟨count, rfl⟩ | ⟨x, rfl⟩
    · trivial
    · trivial

/-- What a step does to the bytes of a file: nothing, or it empties the file, or it
is the flush of a call that is about this file. -/
theorem Placed.effect (h : self.Placed place files call steps stage)
    (hstep : self.Steps codec place files call fault stage files' stage') (file : Ino) :
    files'.bytes file = files.bytes file ∨ files'.bytes file = []
      ∨ fault = none ∧ self.target place call = some file ∧ stage.file? = some file
        ∧ steps = List.replicate (call.op.flushStep - 1) none := by
  have hset : ∀ (other : Ino) (content : List UInt8), other ≠ file →
      FileTable.bytes (files.set other content) file = files.bytes file := by
    intro other content hne
    rw [FileTable.bytes, FileTable.bytes, Dict.get?_set_ne _ _ (Ne.symm hne)]
  cases hstep with
  | refused | fails | full | measures | ended => exact .inl rfl
  | @opens opened =>
    unfold openedFiles
    split
    all_goals try exact .inl rfl
    all_goals
      by_cases hne : opened = file
      · subst hne
        exact .inr (.inl (by rw [FileTable.bytes, Dict.get?_set_self]; rfl))
      · exact .inl (hset _ _ hne)
  | @writes opened addition found bytes hop =>
    by_cases hne : opened = file
    · subst hne
      exact .inr (.inr ⟨rfl, h.2.1, rfl, by rw [h.1, hop]; rfl⟩)
    · exact .inl (hset _ _ hne)
  | @appends opened =>
    by_cases hne : opened = file
    · subst hne
      exact .inr (.inr ⟨rfl, h.2.2.1, rfl, by rw [h.1, h.2.1]; rfl⟩)
    · exact .inl (hset _ _ hne)

/-- Who has a file open has just opened it, or had it open before. -/
theorem Steps.file_before (hstep : self.Steps codec place files call fault stage files' stage')
    (hfile : stage'.file? = some file) : stage = .start ∨ stage.file? = some file := by
  cases hstep with
  | refused | fails | writes | full | appends => cases hfile
  | opens => exact .inl rfl
  | measures | ended => exact .inr hfile

/-- How a call comes to have its file open. -/
theorem Steps.opened_inv {addition : Nat} {found : Option Nat}
    (hstep : self.Steps codec place files call fault stage files' stage')
    (hstage : stage' = .opened file addition found) :
    found = (files.get? file).map List.length ∧ files' = openedFiles files call.op file := by
  cases hstep with
  | refused | fails | writes | full | measures | appends => cases hstage
  | opens =>
    cases hstage
    exact ⟨rfl, rfl⟩
  | ended hended =>
    rcases hended with ⟨count, rfl⟩ | ⟨x, rfl⟩
    · cases hstage
    · cases hstage

/-- How an append comes to have measured its file. -/
theorem Steps.checked_inv {found : Option Nat}
    (hstep : self.Steps codec place files call fault stage files' stage')
    (hstage : stage' = .checked file found) :
    files' = files ∧ ∃ addition, stage = .opened file addition found
      ∧ (files.bytes file).length + addition ≤ self.maxBytes := by
  cases hstep with
  | refused | fails | writes | full | opens | appends => cases hstage
  | measures happend hfits =>
    cases hstage
    exact ⟨rfl, _, rfl, hfits⟩
  | ended hended =>
    rcases hended with ⟨count, rfl⟩ | ⟨x, rfl⟩
    · cases hstage
    · cases hstage

end Placed

section PlacedRuns

variable {self codec place} {s : SharedFiles} {pre : List WriteMove} {m : WriteMove}

theorem isSome_concat {file : Ino}
    (h : ((self.scheduled codec place pre s).files.get? file).isSome = true) :
    ((self.scheduled codec place (pre ++ [m]) s).files.get? file).isSome = true := by
  rcases mover_cases self codec place s pre m with ⟨-, hsame⟩ | ⟨call, stage, stage', -, -, hstep⟩
  · rwa [hsame]
  · exact isSome_step h hstep

variable {calls : List WriteCall} {files : FileTable}

/-- Where every call stands after a schedule. -/
theorem placed_scheduled {k : Nat} {call : WriteCall} {stage : WriteStage}
    (h : (self.scheduled codec place pre (.fresh files calls)).calls[k]? = some (call, stage)) :
    self.Placed place (self.scheduled codec place pre (.fresh files calls)).files call
      (stepsOf pre k) stage := by
  induction pre using List.reverseRecOn generalizing k call stage with
  | nil =>
    obtain rfl := start_of_fresh h
    exact rfl
  | append_singleton pre m ih =>
    obtain ⟨stage, hbefore, ⟨hk, rfl⟩ | ⟨rfl, hstep⟩⟩ := call_concat h
    · rw [stepsOf_concat_ne hk]
      exact (ih hbefore).of_grown fun file => isSome_concat
    · rw [stepsOf_concat_self rfl]
      exact (ih hbefore).step hstep

/-- What one more move does to the bytes of a file. -/
theorem effect_concat (self : FileSystemIntegration) (codec : Codec)
    (place : List String → Ino) (calls : List WriteCall) (files : FileTable)
    (pre : List WriteMove) (m : WriteMove) (file : Ino) :
    (self.scheduled codec place (pre ++ [m]) (.fresh files calls)).files.bytes file
        = (self.scheduled codec place pre (.fresh files calls)).files.bytes file
      ∨ (self.scheduled codec place (pre ++ [m]) (.fresh files calls)).files.bytes file = []
      ∨ ∃ call stage,
        (self.scheduled codec place pre (.fresh files calls)).calls[m.call]? = some (call, stage)
          ∧ m.fault = none ∧ self.target place call = some file ∧ stage.file? = some file
          ∧ stepsOf pre m.call = List.replicate (call.op.flushStep - 1) none := by
  rcases mover_cases self codec place (.fresh files calls) pre m with
    ⟨-, hsame⟩ | ⟨call, stage, _, hcall, -, hstep⟩
  · exact .inl (by rw [hsame])
  · rcases (placed_scheduled hcall).effect hstep file with hsame | hempty | hflush
    · exact .inl hsame
    · exact .inr (.inl hempty)
    · exact .inr (.inr ⟨call, stage, hcall, hflush⟩)

/-- The calls stay what they are. -/
theorem calls_scheduled (self : FileSystemIntegration) (codec : Codec)
    (place : List String → Ino) (calls : List WriteCall) (files : FileTable)
    (pre : List WriteMove) :
    (self.scheduled codec place pre (.fresh files calls)).calls.map Prod.fst = calls := by
  induction pre using List.reverseRecOn with
  | nil =>
    show (calls.map (·, WriteStage.start)).map Prod.fst = calls
    rw [List.map_map]
    exact List.map_id calls
  | append_singleton pre m ih =>
    rw [scheduled_concat]
    generalize self.scheduled codec place pre (.fresh files calls) = t at ih ⊢
    cases hmoving : t.calls[m.call]? with
    | none => rwa [moved_of_none hmoving]
    | some p =>
      have hsame : (t.calls.map Prod.fst)[m.call]? = some p.1 := by
        rw [List.getElem?_map, hmoving, Option.map_some]
      rw [moved_of_some _ _ _ hmoving, List.map_set]
      refine Eq.trans (List.ext_getElem? fun i => ?_) ih
      by_cases hi : m.call = i
      · subst hi
        rw [List.getElem?_set_self (List.getElem?_eq_some_iff.mp hsame).1, hsame]
      · rw [List.getElem?_set_ne hi]

theorem call_of_scheduled {k : Nat} {call : WriteCall} {stage : WriteStage}
    (h : (self.scheduled codec place pre (.fresh files calls)).calls[k]? = some (call, stage)) :
    calls[k]? = some call := by
  rw [← calls_scheduled self codec place calls files pre, List.getElem?_map, h, Option.map_some]

theorem exists_stage (self : FileSystemIntegration) (codec : Codec) (place : List String → Ino)
    (files : FileTable) (pre : List WriteMove) {k : Nat} {call : WriteCall}
    (h : calls[k]? = some call) : ∃ stage,
      (self.scheduled codec place pre (.fresh files calls)).calls[k]? = some (call, stage) := by
  rw [← calls_scheduled self codec place calls files pre, List.getElem?_map] at h
  obtain ⟨⟨call', stage⟩, hcall, heq⟩ := Option.map_eq_some_iff.mp h
  obtain rfl : call' = call := heq
  exact ⟨stage, hcall⟩

end PlacedRuns

/-! ## Room and overtaking -/

variable (calls : List WriteCall)

/-- Another call flushed into the file since call `k` made its step `n`, and had then
not made its step `step`. -/
def Spoilt (pre : List WriteMove) (k : Nat) (file : Ino) (n : Nat) (step : WriteOp → Nat) : Prop :=
  ∃ (j : Nat) (other : WriteCall), calls[j]? = some other ∧ k ≠ j
    ∧ self.target place other = some file ∧ Before pre k n j (step other.op)
    ∧ Made pre j other.op.flushStep

/-- What the appends under way can rely on: an append that made its file finds it
empty, and one that measured its file finds the room it found then, unless another
call has flushed into it since. -/
structure Relies (driver : FileSystemIntegration) (codec : Codec) (place : List String → Ino)
    (calls : List WriteCall) (initial : FileTable) (pre : List WriteMove) (s : SharedFiles) :
    Prop where
  measuring : ∀ (k : Nat) call file addition,
    s.calls[k]? = some (call, .opened file addition none) → call.op = .appendText →
    initial.get? file = none
      ∧ (s.files.bytes file = [] ∨ driver.Spoilt place calls pre k file 1 fun _ => 1)
  /-- Whoever has the same file open has opened it later. -/
  later : ∀ (k : Nat) call file addition,
    s.calls[k]? = some (call, .opened file addition none) →
    ∀ (j : Nat) other stage, s.calls[j]? = some (other, stage) → k ≠ j →
      stage.file? = some file → Before pre k 1 j 1
  flushing : ∀ (k : Nat) call file found,
    s.calls[k]? = some (call, .checked file found) →
    (s.files.bytes file).length + (streamed codec call found).length ≤ driver.maxBytes
      ∨ driver.Spoilt place calls pre k file 2 WriteOp.flushStep

section Relies

variable {self codec place calls} {files : FileTable} {pre : List WriteMove} {m : WriteMove}
  {k : Nat} {call : WriteCall} {file : Ino}

theorem Spoilt.mono {n : Nat} {step : WriteOp → Nat} {sched : List WriteMove}
    (h : self.Spoilt place calls pre k file n step) (hpre : pre <+: sched) :
    self.Spoilt place calls sched k file n step := by
  obtain ⟨j, other, hj, hne, htarget, hbefore, hmade⟩ := h
  exact ⟨j, other, hj, hne, htarget, hbefore.mono hpre, hmade.mono hpre⟩

/-- A flush of another call spoils what an append relies on. -/
theorem spoilt_of_flush {n : Nat} {step : WriteOp → Nat} {other : WriteCall}
    (hother : calls[m.call]? = some other) (hk : m.call ≠ k)
    (htarget : self.target place other = some file) (hfault : m.fault = none)
    (hsteps : stepsOf pre m.call = List.replicate (other.op.flushStep - 1) none)
    (hbefore : Before (pre ++ [m]) k n m.call (step other.op)) :
    self.Spoilt place calls (pre ++ [m]) k file n step := by
  refine ⟨m.call, other, hother, Ne.symm hk, htarget, hbefore, ?_⟩
  have hmade := Made.of_steps (steps_concat hsteps rfl hfault)
  cases hop : other.op with
  | writeText | appendText =>
    rw [hop] at hmade
    exact hmade

theorem Relies.measuring_concat (hrelies : self.Relies codec place calls files pre
      (self.scheduled codec place pre (.fresh files calls))) {addition : Nat}
    (hexists : ∀ file, (files.get? file).isSome = true →
      ((self.scheduled codec place pre (.fresh files calls)).files.get? file).isSome = true)
    (hcall : (self.scheduled codec place (pre ++ [m]) (.fresh files calls)).calls[k]?
      = some (call, .opened file addition none)) (happend : call.op = .appendText) :
    files.get? file = none
      ∧ ((self.scheduled codec place (pre ++ [m]) (.fresh files calls)).files.bytes file = []
        ∨ self.Spoilt place calls (pre ++ [m]) k file 1 fun _ => 1) := by
  have hpre : pre <+: pre ++ [m] := List.prefix_append pre [m]
  obtain ⟨stage, hbefore, ⟨hk, rfl⟩ | ⟨rfl, hstep⟩⟩ := call_concat hcall
  · obtain ⟨hinitial, hrely⟩ := hrelies.measuring k call file addition hbefore happend
    refine ⟨hinitial, ?_⟩
    rcases effect_concat self codec place calls files pre m file with
      hsame | hempty | ⟨other, stage, hother, hfault, htarget, hfile, hsteps⟩
    · rw [hsame]
      exact hrely.imp_right (·.mono hpre)
    · exact .inl hempty
    · have hlater := hrelies.later k call file addition hbefore _ other stage hother (Ne.symm hk)
        hfile
      exact .inr (spoilt_of_flush (call_of_scheduled hother) hk htarget hfault hsteps
        (hlater.mono hpre))
  · -- the append has just made the file
    obtain ⟨hfound, hfiles⟩ := hstep.opened_inv rfl
    have hnone := Option.map_eq_none_iff.mp hfound.symm
    refine ⟨?_, .inl ?_⟩
    · by_contra hsome
      have hthere := hexists file (Option.isSome_iff_ne_none.mpr hsome)
      rw [hnone] at hthere
      cases hthere
    · rw [hfiles, happend]
      simp [openedFiles, hnone, FileTable.bytes]

theorem Relies.later_concat (hrelies : self.Relies codec place calls files pre
      (self.scheduled codec place pre (.fresh files calls))) {addition : Nat}
    (hcall : (self.scheduled codec place (pre ++ [m]) (.fresh files calls)).calls[k]?
      = some (call, .opened file addition none)) {j : Nat} {other : WriteCall}
    {stage' : WriteStage}
    (hother : (self.scheduled codec place (pre ++ [m]) (.fresh files calls)).calls[j]?
      = some (other, stage')) (hne : k ≠ j) (hfile : stage'.file? = some file) :
    Before (pre ++ [m]) k 1 j 1 := by
  have hpre : pre <+: pre ++ [m] := List.prefix_append pre [m]
  obtain ⟨stage, hbefore, ⟨hk, rfl⟩ | ⟨rfl, hstep⟩⟩ := call_concat hcall
  · obtain ⟨stage, hotherBefore, ⟨-, rfl⟩ | ⟨rfl, hstep⟩⟩ := call_concat hother
    · exact (hrelies.later k call file addition hbefore j other stage' hotherBefore hne hfile).mono
        hpre
    · rcases hstep.file_before hfile with rfl | hfile
      · -- it opens the file now
        refine ⟨pre, hpre, Made.of_steps (placed_scheduled hbefore).1, ?_⟩
        have hnone : stepsOf pre m.call = List.replicate 0 none := placed_scheduled hotherBefore
        rw [Made.iff_of_steps hnone]
        omega
      · exact (hrelies.later k call file addition hbefore _ other stage hotherBefore hne
          hfile).mono hpre
  · -- nobody has the file open that is made now
    have hnone := Option.map_eq_none_iff.mp (hstep.opened_inv rfl).1.symm
    obtain ⟨stage, hotherBefore, ⟨-, rfl⟩ | ⟨heq, -⟩⟩ := call_concat hother
    · have hthere := (placed_scheduled hotherBefore).isSome_file hfile
      rw [hnone] at hthere
      cases hthere
    · exact absurd heq hne

theorem Relies.flushing_concat (hrelies : self.Relies codec place calls files pre
      (self.scheduled codec place pre (.fresh files calls))) {found : Option Nat}
    (hcall : (self.scheduled codec place (pre ++ [m]) (.fresh files calls)).calls[k]?
      = some (call, .checked file found)) :
    ((self.scheduled codec place (pre ++ [m]) (.fresh files calls)).files.bytes file).length
        + (streamed codec call found).length ≤ self.maxBytes
      ∨ self.Spoilt place calls (pre ++ [m]) k file 2 WriteOp.flushStep := by
  have hpre : pre <+: pre ++ [m] := List.prefix_append pre [m]
  obtain ⟨stage, hbefore, ⟨hk, rfl⟩ | ⟨rfl, hstep⟩⟩ := call_concat hcall
  · have haccepts : self.Accepts codec call := noted_scheduled hbefore
    rcases effect_concat self codec place calls files pre m file with
      hsame | hempty | ⟨other, stage, hother, hfault, htarget, -, hsteps⟩
    · rw [hsame]
      exact (hrelies.flushing k call file found hbefore).imp_right (·.mono hpre)
    · have hstream := haccepts.streamed_le found
      have hsize := haccepts.size_le
      refine .inl ?_
      rw [hempty, List.length_nil]
      omega
    · refine .inr (spoilt_of_flush (call_of_scheduled hother) hk htarget hfault hsteps
        ⟨pre, hpre, Made.of_steps (placed_scheduled hbefore).1, ?_⟩)
      rw [Made.iff_of_steps hsteps]
      cases other.op with
      | writeText | appendText => decide
  · obtain ⟨hfiles, addition, rfl, hfits⟩ := hstep.checked_inv rfl
    obtain ⟨haccepts, rfl, -⟩ := noted_scheduled hbefore
    have hstream := haccepts.streamed_le found
    refine .inl ?_
    rw [hfiles]
    omega

/-- What the appends under way can rely on after a schedule. -/
theorem relies_scheduled (self : FileSystemIntegration) (codec : Codec)
    (place : List String → Ino) (calls : List WriteCall) (files : FileTable)
    (pre : List WriteMove) :
    self.Relies codec place calls files pre
      (self.scheduled codec place pre (.fresh files calls)) := by
  have hexists : ∀ pre file, (files.get? file).isSome = true →
      ((self.scheduled codec place pre (.fresh files calls)).files.get? file).isSome = true := by
    intro pre file hfile
    induction pre using List.reverseRecOn with
    | nil => exact hfile
    | append_singleton pre m ih => exact isSome_concat ih
  induction pre using List.reverseRecOn with
  | nil =>
    refine ⟨fun k call file addition hcall => ?_, fun k call file addition hcall => ?_,
      fun k call file found hcall => ?_⟩
    · cases start_of_fresh hcall
    · cases start_of_fresh hcall
    · cases start_of_fresh hcall
  | append_singleton pre m ih =>
    exact ⟨fun _ _ _ _ hcall => ih.measuring_concat (hexists pre) hcall,
      fun _ _ _ _ hcall _ _ _ hother => ih.later_concat hcall hother,
      fun _ _ _ _ hcall => ih.flushing_concat hcall⟩

end Relies

/-! ## What the calls can still add -/

/-- What a call that has not ended can still add to a file. -/
def due (file : Ino) (p : WriteCall × WriteStage) : Nat :=
  match p.2 with
  | .returned _ | .raised _ => 0
  | _ => if self.target place p.1 = some file then p.1.size codec else 0

/-- The length of a file, with what the calls can still add to it. -/
def budget (s : SharedFiles) (file : Ino) : Nat :=
  (s.files.bytes file).length + (s.calls.map (self.due codec place file)).sum

/-- A file as it is at first has room for the texts of all calls that are about it. -/
def Ample (files : FileTable) (file : Ino) : Prop :=
  self.budget codec place (.fresh files calls) file ≤ self.maxBytes

section Budget

variable {self codec place calls} {files files' : FileTable} {call : WriteCall}
  {fault : Option CallFault} {stage stage' : WriteStage} {file : Ino}
  {steps : List (Option CallFault)} {touched : Prop} {s : SharedFiles}

theorem sum_map_set {α : Type} (f : α → Nat) {l : List α} {i : Nat} {a : α} (h : l[i]? = some a)
    (b : α) : ((l.set i b).map f).sum + f a = (l.map f).sum + f b := by
  induction l generalizing i with
  | nil => cases h
  | cons x rest ih =>
    cases i with
    | zero =>
      obtain rfl := Option.some.inj h
      simp only [List.set_cons_zero, List.map_cons, List.sum_cons]
      omega
    | succ i =>
      have hrest := ih (i := i) h
      simp only [List.set_cons_succ, List.map_cons, List.sum_cons]
      omega

/-- A call that ends adds to a file no more than it could. -/
theorem budget_flush (hplaced : self.Placed place files call steps stage)
    (hnoted : self.Noted codec call touched stage)
    (hstep : self.Steps codec place files call fault stage files' stage') (file : Ino) :
    (files'.bytes file).length + self.due codec place file (call, stage')
      ≤ (files.bytes file).length + self.due codec place file (call, stage) := by
  -- a write to the file is paid for by the text of its own call
  have hset : ∀ {opened : Ino} {content : List UInt8}, self.target place call = some opened →
      content.length ≤ (files.bytes opened).length + call.size codec →
      (FileTable.bytes (files.set opened content) file).length ≤ (files.bytes file).length
        + if self.target place call = some file then call.size codec else 0 := by
    intro opened content htarget hle
    by_cases hne : opened = file
    · subst hne
      rw [if_pos htarget, FileTable.bytes, Dict.get?_set_self]
      exact hle
    · rw [FileTable.bytes, Dict.get?_set_ne _ _ (Ne.symm hne)]
      exact Nat.le_add_right _ _
  have heffect := hplaced.effect hstep file
  cases hstep with
  | refused | fails | full => exact Nat.add_le_add_left (Nat.zero_le _) _
  | measures | ended => exact Nat.le_refl _
  | opens =>
    refine Nat.add_le_add_right ?_ _
    rcases heffect with hsame | hempty | ⟨-, -, hfile, -⟩
    · rw [hsame]
    · rw [hempty]
      exact Nat.zero_le _
    · cases hfile
  | @writes opened addition found bytes hop hbytes =>
    refine hset hplaced.2.1 ?_
    have hnew := hnoted.1.streamed_le found
    rw [← hbytes] at hnew
    rw [List.length_append, List.length_drop]
    omega
  | @appends opened found =>
    refine hset hplaced.2.2.1 ?_
    have hnew := Accepts.streamed_le hnoted found
    rw [List.length_append]
    omega

/-- No move raises the budget of a file. -/
theorem budget_scheduled (self : FileSystemIntegration) (codec : Codec)
    (place : List String → Ino) (calls : List WriteCall) (files : FileTable)
    (pre : List WriteMove) (file : Ino) :
    self.budget codec place (self.scheduled codec place pre (.fresh files calls)) file
      ≤ self.budget codec place (.fresh files calls) file := by
  induction pre using List.reverseRecOn with
  | nil => exact Nat.le_refl _
  | append_singleton pre m ih =>
    refine Nat.le_trans ?_ ih
    rw [scheduled_concat]
    cases hmoving : (self.scheduled codec place pre (.fresh files calls)).calls[m.call]? with
    | none => rw [moved_of_none hmoving]
    | some p =>
      obtain ⟨call, stage⟩ := p
      have hflush := budget_flush (placed_scheduled hmoving) (noted_scheduled hmoving)
        (advance_steps self codec place _ call m.fault stage) file
      rw [moved_of_some _ _ _ hmoving, budget, budget]
      generalize self.advance codec place _ call m.fault stage = later at hflush ⊢
      have hsum := sum_map_set (self.due codec place file) hmoving (call, later.2)
      simp only
      omega

/-- In a file with room for all texts, every append has the room it relies on. -/
theorem roomLeft_of_ample (hample : self.Ample codec place calls files file)
    {pre : List WriteMove} {k : Nat}
    (hcall : (self.scheduled codec place pre (.fresh files calls)).calls[k]? = some (call, stage))
    (hfile : stage.file? = some file) :
    self.RoomLeft codec (self.scheduled codec place pre (.fresh files calls)).files call stage := by
  have hplaced := placed_scheduled hcall
  have hnoted := noted_scheduled hcall
  have hbudget := budget_scheduled self codec place calls files pre file
  have hdue : self.due codec place file (call, stage)
      ≤ ((self.scheduled codec place pre (.fresh files calls)).calls.map
          (self.due codec place file)).sum :=
    List.single_le_sum (fun _ _ => Nat.zero_le _) _
      (List.mem_map_of_mem (List.mem_of_getElem? hcall))
  have hlimit : (self.budget codec place (.fresh files calls) file : Int) ≤ self.maxBytes := hample
  rw [budget] at hbudget
  cases stage with
  | start | returned | raised => trivial
  | opened opened addition found =>
    cases hfile
    have hsize : self.due codec place file (call, .opened file addition found)
        = call.size codec := if_pos hplaced.2.1
    cases found with
    | some => trivial
    | none =>
      intro _
      have haddition := hnoted.2.1
      omega
  | checked opened found =>
    cases hfile
    have hsize : self.due codec place file (call, .checked file found)
        = call.size codec := if_pos hplaced.2.2.1
    have hstream := Accepts.streamed_le hnoted found
    show _ ≤ _
    omega

end Budget

/-! ## Calls that keep the order -/

/-- An append is overtaken in the file. -/
def OvertakenIn (driver : FileSystemIntegration) (place : List String → Ino)
    (calls : List WriteCall) (files : FileTable) (sched : List WriteMove) (file : Ino) : Prop :=
  ∃ (k j : Nat) (call other : WriteCall), calls[k]? = some call ∧ calls[j]? = some other ∧ k ≠ j
    ∧ call.op = .appendText ∧ driver.target place call = some file
    ∧ driver.target place other = some file
    ∧ Overtaken sched (files.get? file).isNone k j other.op.flushStep

section Order

variable {self codec place} {files : FileTable} {calls : List WriteCall}
  {sched pre : List WriteMove} {m : WriteMove} {stage : WriteStage}

/-- An append that lacks room has been overtaken. -/
theorem overtaken_of_not_roomLeft (hpre : pre ++ [m] <+: sched) {call : WriteCall}
    (hcall : (self.scheduled codec place pre (.fresh files calls)).calls[m.call]?
      = some (call, stage)) (hfault : m.fault = none)
    (hroom : ¬ self.RoomLeft codec
      (self.scheduled codec place pre (.fresh files calls)).files call stage) :
    ∃ file, stage.file? = some file ∧ self.OvertakenIn place calls files sched file := by
  have hplaced := placed_scheduled hcall
  have hnoted := noted_scheduled hcall
  have hrelies := relies_scheduled self codec place calls files pre
  have hbefore : pre <+: sched := (List.prefix_append pre [m]).trans hpre
  have hk := call_of_scheduled hcall
  cases stage with
  | start | returned | raised => exact absurd trivial hroom
  | opened file addition found =>
    cases found with
    | some => exact absurd trivial hroom
    | none =>
      obtain ⟨happend, hfull⟩ := Classical.not_imp.mp hroom
      obtain ⟨hsteps, htarget, -⟩ := hplaced
      -- no room before the fstat: somebody else has filled the file that open created
      obtain ⟨hinitial, hempty | ⟨j, other, hj, hne, hother, hlater, hflushed⟩⟩ :=
        hrelies.measuring _ call file addition hcall happend
      · have hsize := hnoted.1.size_le
        rw [hempty, hnoted.2.1, List.length_nil] at hfull
        omega
      · refine ⟨file, rfl, m.call, j, call, other, hk, hj, hne, happend, htarget, hother,
          .inr ⟨by rw [hinitial]; rfl, hlater.mono hbefore, ⟨pre, hbefore, hflushed, ?_⟩,
            (Made.of_steps (steps_concat hsteps rfl hfault)).mono hpre⟩⟩
        rw [Made.iff_of_steps hsteps]
        omega
  | checked file found =>
    obtain ⟨hsteps, happend, htarget, -⟩ := hplaced
    -- no room at the flush: somebody else has flushed since the fstat
    obtain ⟨j, other, hj, hne, hother, hmeasured, hflushed⟩ :=
      (hrelies.flushing _ call file found hcall).resolve_left hroom
    refine ⟨file, rfl, m.call, j, call, other, hk, hj, hne, happend, htarget, hother,
      .inl ⟨hmeasured.mono hbefore, ⟨pre, hbefore, hflushed, ?_⟩,
        (Made.of_steps (steps_concat hsteps rfl hfault)).mono hpre⟩⟩
    rw [Made.iff_of_steps hsteps]
    omega

end Order

/-- The limit is kept while every move has the room it relies on. -/
theorem keepsLimit_of_hasRoom {files : FileTable} (hwithin : self.Within files)
    {calls : List WriteCall} {sched : List WriteMove}
    (hroom : ∀ pre m, pre ++ [m] <+: sched →
      self.HasRoom codec (self.scheduled codec place pre (.fresh files calls)) m)
    {pre : List WriteMove} (hpre : pre <+: sched) :
    self.KeepsLimit codec place (.fresh files calls) pre := by
  induction pre using List.reverseRecOn with
  | nil =>
    refine ⟨hwithin, fun k call stage hcall hrejected htouched => ?_⟩
    obtain ⟨e, he, -⟩ := htouched
    cases he
  | append_singleton pre m ih =>
    have hbefore := (List.prefix_append pre [m]).trans hpre
    exact (ih hbefore).concat (hroom pre m hpre)

end FileSystemIntegration

/-! ## Two appends -/

/-- A driver with room for eight bytes in a file. -/
def eightBytes : FileSystemIntegration where
  root := "/srv"
  maxBytes := 8
  name_ne := FileSystemIntegration.default_name_ne

/-- A file of five bytes. -/
def fiveBytes : FileTable := Dict.ofList [(0, [49, 50, 51, 52, 53])]

/-- Two calls that append three bytes each. -/
def twoAppends : List WriteCall :=
  [{ op := .appendText, path := "a.txt", content := "678" },
    { op := .appendText, path := "a.txt", content := "abc" }]

/-- Both measure the file before either flushes. -/
def overlapping : List WriteMove :=
  [{ call := 0 }, { call := 1 }, { call := 0 }, { call := 1 }, { call := 0 }, { call := 1 }]

/-- Both have the file open before one of them ends. -/
def orderly : List WriteMove :=
  [{ call := 0 }, { call := 1 }, { call := 0 }, { call := 0 }, { call := 1 }, { call := 1 }]

theorem fiveBytes_within : eightBytes.Within fiveBytes := by
  intro file content hfile
  obtain ⟨rfl, rfl⟩ : file = 0 ∧ content = [49, 50, 51, 52, 53] := by
    have hmem := List.mem_singleton.mp (Dict.get?_eq_some_iff.mp hfile)
    exact Prod.mk.inj hmem
  decide

theorem orderly_not_overtaken (file : Ino) :
    ¬ eightBytes.OvertakenIn (fun _ => 0) twoAppends fiveBytes orderly file := by
  rintro ⟨k, j, call, other, hk, hj, -, -, -, htarget, hovertaken⟩
  obtain ⟨-, -, -, rfl⟩ := FileSystemIntegration.target_eq_some_iff.mp htarget
  have hop : other.op = .appendText := by
    have hall : ∀ c ∈ twoAppends, c.op = .appendText := by decide
    exact hall other (List.mem_of_getElem? hj)
  rw [hop] at hovertaken
  have hnone : ∀ k < 2, ∀ j < 2, ¬ Overtaken orderly (fiveBytes.get? 0).isNone k j 3 := by decide
  exact hnone k (List.getElem?_eq_some_iff.mp hk).1 j (List.getElem?_eq_some_iff.mp hj).1
    hovertaken

end TitoOS
