import TitoOS.Files.Limit

/-!
# The order cannot be relaxed

A schedule in which an append is overtaken breaks the size limit for some texts: one
byte is allowed, the append and the call that overtakes it write one byte each, and
all other calls are refused because their texts are too large (`order_iff`).

The invariant is `Duel`, on the way to the step at which the append lacks room: the
two calls have not failed, the others have done nothing, and the file holds the byte
of the call that overtakes from its flush on.
-/

namespace TitoOS

namespace FileSystemIntegration

/-- Two calls of one byte each on one file that is empty, and others that are too large. -/
structure Rivals (driver : FileSystemIntegration) (place : List String → Ino)
    (calls : List WriteCall) (files : FileTable) (k j : Nat) (call other : WriteCall) (file : Ino) :
    Prop where
  limit : driver.maxBytes = 1
  empty : ∀ i, files.bytes i = []
  ne : k ≠ j
  first : calls[k]? = some call
  append : call.op = .appendText
  target : driver.target place call = some file
  content : call.content = "a"
  second : calls[j]? = some other
  other_target : driver.target place other = some file
  other_content : other.content = "b"
  others : ∀ (i : Nat) c, calls[i]? = some c → i ≠ k → i ≠ j → c.content = "xx"

/-- Call `k` comes to its step `n`, and call `j` has flushed by then: after `k` measured
its file, or after it opened it. -/
structure Course (sched : List WriteMove) (k j flush n : Nat) : Prop where
  makes : Made sched k n
  flushes : Before sched j flush k n
  late : n = 3 ∧ Before sched k 2 j flush ∨ n = 2 ∧ Before sched k 1 j 1

/-- On the way to step `n` of call `k`. -/
structure Duel (k j n flush : Nat) (file : Ino) (pre : List WriteMove) (s : SharedFiles) :
    Prop where
  unflushed : ¬ Made pre j flush → s.files.bytes file = []
  flushed : Made pre j flush → s.files.bytes file = [98]
  idle : ∀ (i : Nat) call stage, s.calls[i]? = some (call, stage) → i ≠ k → i ≠ j →
    stage = .start ∨ ∃ x, stage = .raised x
  alive : ∀ (i : Nat) call stage, s.calls[i]? = some (call, stage) → i = k ∨ i = j →
    (∀ x, stage ≠ .raised x) ∧ ∀ count, stage = .returned count → Made pre i call.op.flushStep
  unmade : n = 2 → ¬ Made pre k 1 → s.files.get? file = none
  found : n = 2 → ∀ call opened addition found,
    s.calls[k]? = some (call, .opened opened addition found) → found = none

section Steps

variable {self : FileSystemIntegration} {place : List String → Ino} {files files' : FileTable}
  {call : WriteCall} {fault : Option CallFault} {stage stage' : WriteStage} {file : Ino}

theorem encode_of_content {text : String} (bytes : List UInt8)
    (hbytes : ascii.encode "ascii" text = .ok bytes) (h : call.content = text) :
    ascii.encode call.encoding call.content = .ok bytes := by
  rw [h]
  exact hbytes

/-- A call whose text is too large does nothing. -/
theorem idle_step (hlimit : self.maxBytes = 1) (hcontent : call.content = "xx")
    (hstage : stage = .start ∨ ∃ x, stage = .raised x)
    (hstep : self.Steps ascii place files call fault stage files' stage') :
    files' = files ∧ ∃ x, stage' = .raised x := by
  cases hstep with
  | refused x => exact ⟨rfl, x, rfl⟩
  | fails hfile =>
    rcases hstage with rfl | ⟨x, rfl⟩
    · cases hfile
    · cases hfile
  | opens htarget hencode hsize =>
    rw [encode_of_content [120, 120] (by decide) hcontent] at hencode
    obtain rfl := Except.ok.inj hencode
    rw [hlimit] at hsize
    exact absurd hsize (by decide)
  | writes | full | measures | appends =>
    rcases hstage with h | ⟨x, h⟩
    · cases h
    · cases h
  | ended hended =>
    rcases hstage with rfl | hraised
    · rcases hended with ⟨count, h⟩ | ⟨x, h⟩
      · cases h
      · cases h
    · exact ⟨rfl, hraised⟩

/-- What a step of a call of one byte does in an empty file. -/
inductive LiveStep (files : FileTable) (call : WriteCall) (file : Ino) (byte : UInt8)
    (steps : List (Option CallFault)) : WriteStage → FileTable → WriteStage → Prop
  | opens : steps = List.replicate 0 none → LiveStep files call file byte steps .start
      (openedFiles files call.op file) (.opened file 1 ((files.get? file).map List.length))
  | measures {found : Option Nat} : steps = List.replicate 1 none → call.op = .appendText →
      LiveStep files call file byte steps (.opened file 1 found) files (.checked file found)
  | flushes {stage : WriteStage} {count : Int} :
      steps = List.replicate (call.op.flushStep - 1) none →
      LiveStep files call file byte steps stage (files.set file [byte]) (.returned count)
  | ended {stage : WriteStage} : (∃ count, stage = .returned count) ∨ (∃ x, stage = .raised x) →
      LiveStep files call file byte steps stage files stage

theorem ascii_stream {encoding text : String} {bytes : List UInt8} {atStart : Bool}
    (h : ascii.encode encoding text = .ok bytes) : ascii.stream encoding atStart text = bytes := by
  unfold ascii at h ⊢
  simp only at h ⊢
  split at h
  · exact Except.ok.inj h
  · cases h

/-- A step that the system does not fail. -/
theorem live_step {byte : UInt8} {steps : List (Option CallFault)} {touched : Prop}
    (hlimit : self.maxBytes = 1) (htarget : self.target place call = some file)
    (hencode : ascii.encode call.encoding call.content = .ok [byte])
    (hempty : files.bytes file = []) (hplaced : self.Placed place files call steps stage)
    (hnoted : self.Noted ascii call touched stage)
    (hstep : self.Steps ascii place files call none stage files' stage') :
    LiveStep files call file byte steps stage files' stage' := by
  have same : ∀ {opened : Ino}, self.target place call = some opened → opened = file :=
    fun h => Option.some.inj (h.symm.trans htarget)
  have hsize : call.size ascii = 1 := size_of_encode hencode
  have hstream : ∀ found, streamed ascii call found = [byte] := fun _ => ascii_stream hencode
  cases hstep with
  | refused x hrefused =>
    -- the text has one byte, which fits the limit
    have hlong := hrefused rfl file htarget _ hencode
    rw [hlimit] at hlong
    exact absurd hlong (by simp)
  | opens hopened hok =>
    obtain rfl := same hopened
    obtain rfl := Except.ok.inj (hencode.symm.trans hok)
    exact .opens hplaced
  | writes hop hbytes =>
    obtain ⟨hsteps, hopened, -⟩ := hplaced
    obtain rfl := same hopened
    rw [hbytes, hstream, hempty]
    exact .flushes (by rw [hop]; exact hsteps)
  | full hop hfull =>
    -- an append to an empty file fits as well
    obtain ⟨-, hopened, -⟩ := hplaced
    obtain rfl := same hopened
    rw [hempty, hnoted.2.1, hsize, hlimit] at hfull
    exact absurd hfull (by simp)
  | measures hop =>
    obtain ⟨hsteps, hopened, -⟩ := hplaced
    obtain rfl := same hopened
    obtain rfl := hnoted.2.1.trans hsize
    exact .measures hsteps hop
  | appends =>
    obtain ⟨hsteps, hop, hopened, -⟩ := hplaced
    obtain rfl := same hopened
    rw [hstream, hempty]
    exact .flushes (by rw [hop]; exact hsteps)
  | ended hended => exact .ended hended

/-- A call that has returned stays as it is. -/
theorem returned_step {count : Int}
    (hstep : self.Steps ascii place files call fault (.returned count) files' stage') :
    files' = files ∧ stage' = .returned count := by
  cases hstep with
  | fails hfile => cases hfile
  | ended => exact ⟨rfl, rfl⟩

theorem bytes_openedFiles (hempty : files.bytes file = []) :
    (openedFiles files call.op file).bytes file = [] := by
  unfold openedFiles
  split
  · rw [FileTable.bytes, Dict.get?_set_self, Option.getD_some]
  · rw [FileTable.bytes, Dict.get?_set_self, Option.getD_some]
  · exact hempty

end Steps

section Duel

variable {self : FileSystemIntegration} {place : List String → Ino} {calls : List WriteCall}
  {files : FileTable} {call other : WriteCall} {file : Ino} {sched pre : List WriteMove}
  {m : WriteMove} {k j n : Nat}

theorem Course.one_le (hcourse : Course sched k j other.op.flushStep n) :
    2 ≤ other.op.flushStep ∧ 1 ≤ n ∧ n ≤ 3 := by
  refine ⟨?_, ?_⟩
  · cases other.op with
    | writeText | appendText => decide
  · rcases hcourse.late with ⟨rfl, -⟩ | ⟨rfl, -⟩
    · decide
    · decide

/-- When call `j` has flushed, call `k` is at its step `n`. -/
theorem Course.made_before (hcourse : Course sched k j other.op.flushStep n) (hpre : pre <+: sched)
    (hmade : Made pre j other.op.flushStep) : Made pre k (n - 1) := by
  rcases hcourse.late with ⟨rfl, hlate⟩ | ⟨rfl, hlate⟩
  · exact hlate.made hpre hmade
  · exact hlate.made hpre (hmade.le (Nat.le_of_succ_le hcourse.one_le.1))

/-- The invariant, from what the call that moves does. -/
theorem Duel.of_mover {flush : Nat} {s : SharedFiles} {c : WriteCall} {stage' : WriteStage}
    (h : Duel k j n flush file pre (self.scheduled ascii place pre s))
    (hmoved : (self.scheduled ascii place (pre ++ [m]) s).calls[m.call]? = some (c, stage'))
    (hunflushed : ¬ Made (pre ++ [m]) j flush →
      (self.scheduled ascii place (pre ++ [m]) s).files.bytes file = [])
    (hflushed : Made (pre ++ [m]) j flush →
      (self.scheduled ascii place (pre ++ [m]) s).files.bytes file = [98])
    (hidle : m.call ≠ k → m.call ≠ j → stage' = .start ∨ ∃ x, stage' = .raised x)
    (halive : m.call = k ∨ m.call = j → (∀ x, stage' ≠ .raised x)
      ∧ ∀ count, stage' = .returned count → Made (pre ++ [m]) m.call c.op.flushStep)
    (hunmade : n = 2 → ¬ Made (pre ++ [m]) k 1 →
      (self.scheduled ascii place (pre ++ [m]) s).files.get? file = none)
    (hfound : n = 2 → m.call = k → ∀ opened addition found,
      stage' = .opened opened addition found → found = none) :
    Duel k j n flush file (pre ++ [m]) (self.scheduled ascii place (pre ++ [m]) s) where
  unflushed := hunflushed
  flushed := hflushed
  unmade := hunmade
  idle := by
    intro i call stage₁ hcall hk hj
    -- a call that did not move is as it was
    obtain ⟨stage, hbefore, ⟨hi, rfl⟩ | ⟨rfl, -⟩⟩ := call_concat hcall
    · exact h.idle i call _ hbefore hk hj
    · obtain ⟨rfl, rfl⟩ := Prod.mk.inj (Option.some.inj (hmoved.symm.trans hcall))
      exact hidle hk hj
  alive := by
    intro i call stage₁ hcall hi
    obtain ⟨stage, hbefore, ⟨hne, rfl⟩ | ⟨rfl, -⟩⟩ := call_concat hcall
    · rw [made_concat_of_ne hne]
      exact h.alive i call _ hbefore hi
    · obtain ⟨rfl, rfl⟩ := Prod.mk.inj (Option.some.inj (hmoved.symm.trans hcall))
      exact halive hi
  found := by
    intro hn call opened addition found hcall
    obtain ⟨stage, hbefore, ⟨hne, rfl⟩ | ⟨hk, -⟩⟩ := call_concat hcall
    · exact h.found hn call opened addition found hbefore
    · rw [← hk] at hcall
      obtain ⟨-, rfl⟩ := Prod.mk.inj (Option.some.inj (hmoved.symm.trans hcall))
      exact hfound hn hk _ _ _ rfl

/-- The move of a call that is too large. -/
theorem Duel.idle_moves (hrivals : self.Rivals place calls files k j call other file)
    (hk : m.call ≠ k) (hj : m.call ≠ j) {c : WriteCall} {stage stage' : WriteStage}
    (h : Duel k j n other.op.flushStep file pre
      (self.scheduled ascii place pre (.fresh files calls)))
    (hcall : (self.scheduled ascii place pre (.fresh files calls)).calls[m.call]? = some (c, stage))
    (hmoved : (self.scheduled ascii place (pre ++ [m]) (.fresh files calls)).calls[m.call]?
      = some (c, stage'))
    (hstep : self.Steps ascii place (self.scheduled ascii place pre (.fresh files calls)).files c
      m.fault stage (self.scheduled ascii place (pre ++ [m]) (.fresh files calls)).files stage') :
    Duel k j n other.op.flushStep file (pre ++ [m])
      (self.scheduled ascii place (pre ++ [m]) (.fresh files calls)) := by
  have hcontent := hrivals.others _ _ (call_of_scheduled hcall) hk hj
  obtain ⟨hfiles, hraised⟩ := idle_step hrivals.limit hcontent (h.idle _ _ _ hcall hk hj) hstep
  refine h.of_mover hmoved ?_ ?_ (fun _ _ => .inr hraised) (fun heq => ?_) (fun hn hnot => ?_)
    fun _ heq => absurd heq hk
  · rw [made_concat_of_ne hj, hfiles]
    exact h.unflushed
  · rw [made_concat_of_ne hj, hfiles]
    exact h.flushed
  · rcases heq with heq | heq
    · exact absurd heq hk
    · exact absurd heq hj
  · rw [made_concat_of_ne hk] at hnot
    rw [hfiles]
    exact h.unmade hn hnot

/-- The move of the append. -/
theorem Duel.first_moves (hrivals : self.Rivals place calls files k j call other file)
    (hcourse : Course sched k j other.op.flushStep n) (hpre : pre ++ [m] <+: sched)
    (hnot : ¬ Made (pre ++ [m]) k n) (hk : m.call = k) {c : WriteCall} {stage stage' : WriteStage}
    (h : Duel k j n other.op.flushStep file pre
      (self.scheduled ascii place pre (.fresh files calls)))
    (hcall : (self.scheduled ascii place pre (.fresh files calls)).calls[m.call]? = some (c, stage))
    (hmoved : (self.scheduled ascii place (pre ++ [m]) (.fresh files calls)).calls[m.call]?
      = some (c, stage'))
    (hstep : self.Steps ascii place (self.scheduled ascii place pre (.fresh files calls)).files c
      m.fault stage (self.scheduled ascii place (pre ++ [m]) (.fresh files calls)).files stage') :
    Duel k j n other.op.flushStep file (pre ++ [m])
      (self.scheduled ascii place (pre ++ [m]) (.fresh files calls)) := by
  have hbefore : pre <+: pre ++ [m] := List.prefix_append pre [m]
  have hj : m.call ≠ j := hk ▸ hrivals.ne
  have hbounds := hcourse.one_le
  obtain ⟨n, rfl⟩ : ∃ n', n = n' + 1 := ⟨n - 1, by omega⟩
  have hunmade : ¬ Made pre k (n + 1) := fun hmade => hnot (hmade.mono hbefore)
  have hfault := hcourse.makes.fault_eq_none hpre hk hunmade
  -- the other call has not flushed, or this would be step `n`
  have hunflushed : ¬ Made pre j other.op.flushStep := fun hmade =>
    hnot (hcourse.makes.concat hpre (hcourse.made_before (hbefore.trans hpre) hmade) hk)
  have hempty := h.unflushed hunflushed
  obtain rfl : c = call := by
    have hsame := call_of_scheduled hcall
    rw [hk, hrivals.first] at hsame
    exact (Option.some.inj hsame).symm
  have hplaced := placed_scheduled hcall
  have hnoted := noted_scheduled hcall
  have halive := h.alive _ _ _ hcall (.inl hk)
  rw [hfault] at hstep
  have hlive := live_step hrivals.limit hrivals.target
    (encode_of_content [97] (by decide) hrivals.content) hempty hplaced hnoted hstep
  have hflushed : Made (pre ++ [m]) j other.op.flushStep →
      (self.scheduled ascii place (pre ++ [m]) (.fresh files calls)).files.bytes file = [98] := by
    rw [made_concat_of_ne hj]
    exact fun hmade => absurd hmade hunflushed
  have hmakes : ∀ {c}, stepsOf pre m.call = List.replicate c none → Made (pre ++ [m]) k (c + 1) :=
    fun hsteps => hk ▸ Made.of_steps (steps_concat hsteps rfl hfault)
  generalize hafter :
    (self.scheduled ascii place (pre ++ [m]) (.fresh files calls)).files = after at hlive
  cases hlive with
  | opens hsteps =>
    refine h.of_mover hmoved (fun _ => hafter ▸ bytes_openedFiles hempty) hflushed
      (fun hne => absurd hk hne) (fun _ => ⟨by simp, by simp⟩)
      (fun _ hno => absurd (hmakes hsteps) hno) fun hn _ opened addition found hstage => ?_
    have hnew : ¬ Made pre k 1 := by
      rw [← hk, Made.iff_of_steps hsteps]
      omega
    cases hstage
    rw [h.unmade hn hnew, Option.map_none]
  | measures hsteps =>
    exact h.of_mover hmoved (fun _ => hafter ▸ hempty) hflushed (fun hne => absurd hk hne)
      (fun _ => ⟨by simp, by simp⟩) (fun _ hno => absurd ((hmakes hsteps).le (by omega)) hno)
      fun _ _ _ _ _ hstage => by cases hstage
  | flushes hsteps =>
    rw [hrivals.append] at hsteps
    exact absurd ((hmakes hsteps).le hbounds.2.2) hnot
  | ended hended =>
    rcases hended with ⟨count, rfl⟩ | ⟨x, rfl⟩
    · have hmade := halive.2 count rfl
      rw [hk, hrivals.append] at hmade
      exact absurd (hmade.le hbounds.2.2) hunmade
    · exact absurd rfl (halive.1 x)

/-- The move of the call that overtakes. -/
theorem Duel.second_moves (hrivals : self.Rivals place calls files k j call other file)
    (hcourse : Course sched k j other.op.flushStep n) (hpre : pre ++ [m] <+: sched)
    (hj : m.call = j) {c : WriteCall} {stage stage' : WriteStage}
    (h : Duel k j n other.op.flushStep file pre
      (self.scheduled ascii place pre (.fresh files calls)))
    (hcall : (self.scheduled ascii place pre (.fresh files calls)).calls[m.call]? = some (c, stage))
    (hmoved : (self.scheduled ascii place (pre ++ [m]) (.fresh files calls)).calls[m.call]?
      = some (c, stage'))
    (hstep : self.Steps ascii place (self.scheduled ascii place pre (.fresh files calls)).files c
      m.fault stage (self.scheduled ascii place (pre ++ [m]) (.fresh files calls)).files stage') :
    Duel k j n other.op.flushStep file (pre ++ [m])
      (self.scheduled ascii place (pre ++ [m]) (.fresh files calls)) := by
  have hbefore : pre <+: pre ++ [m] := List.prefix_append pre [m]
  have hk : m.call ≠ k := hj ▸ hrivals.ne.symm
  obtain ⟨hflush, -, -⟩ := hcourse.one_le
  obtain rfl : c = other := by
    have hsame := call_of_scheduled hcall
    rw [hj, hrivals.second] at hsame
    exact (Option.some.inj hsame).symm
  have hplaced := placed_scheduled hcall
  have hnoted := noted_scheduled hcall
  have halive := h.alive _ _ _ hcall (.inr hj)
  -- the file is there from the moment on that the append has opened it
  have hunmade : n = 2 → Made (pre ++ [m]) j 1 → Made (pre ++ [m]) k 1 := by
    intro hn
    rcases hcourse.late with ⟨hthree, -⟩ | ⟨-, hlate⟩
    · omega
    · exact hlate.made hpre
  by_cases hflushed : Made pre j c.op.flushStep
  · obtain ⟨count, rfl⟩ : ∃ count, stage = .returned count := by
      rw [hj] at hplaced
      cases stage with
      | returned count => exact ⟨count, rfl⟩
      | raised x => exact absurd rfl (halive.1 x)
      | start =>
        have hle := (Made.iff_of_steps (n := 0) hplaced).mp hflushed
        omega
      | opened =>
        have hle := (Made.iff_of_steps hplaced.1).mp hflushed
        omega
      | checked =>
        have hle := (Made.iff_of_steps hplaced.1).mp hflushed
        rw [hplaced.2.1] at hle
        exact absurd hle (by decide)
    obtain ⟨hfiles, rfl⟩ := returned_step hstep
    have hstill := hflushed.mono hbefore
    refine h.of_mover hmoved (fun hno => absurd hstill hno) (fun _ => hfiles ▸ h.flushed hflushed)
      (fun _ hne => absurd hj hne) (fun _ => ⟨by simp, fun _ _ => hj ▸ hstill⟩) ?_
      fun _ heq => absurd heq hk
    rw [made_concat_of_ne hk, hfiles]
    exact h.unmade
  · obtain ⟨later, hlater, hmade, -⟩ := hcourse.flushes
    have hfault := (hmade.mono hlater).fault_eq_none hpre hj hflushed
    have hempty := h.unflushed hflushed
    rw [hfault] at hstep
    have hlive := live_step hrivals.limit hrivals.other_target
      (encode_of_content [98] (by decide) hrivals.other_content) hempty hplaced hnoted
      hstep
    have hsteps_concat : ∀ {c}, stepsOf pre m.call = List.replicate c none →
        stepsOf (pre ++ [m]) j = List.replicate (c + 1) none :=
      fun hsteps => hj ▸ steps_concat hsteps rfl hfault
    generalize hafter :
      (self.scheduled ascii place (pre ++ [m]) (.fresh files calls)).files = after at hlive
    cases hlive with
    | opens hsteps =>
      have hone := hsteps_concat hsteps
      refine h.of_mover hmoved (fun _ => hafter ▸ bytes_openedFiles hempty) (fun hmade => ?_)
        (fun _ hne => absurd hj hne) (fun _ => ⟨by simp, by simp⟩)
        (fun hn hno => absurd (hunmade hn (Made.of_steps hone)) hno) fun _ heq => absurd heq hk
      rw [Made.iff_of_steps hone] at hmade
      omega
    | measures hsteps happend =>
      have htwo := hsteps_concat hsteps
      refine h.of_mover hmoved (fun _ => hafter ▸ hempty) (fun hmade => ?_)
        (fun _ hne => absurd hj hne) (fun _ => ⟨by simp, by simp⟩)
        (fun hn hno => absurd (hunmade hn ((Made.of_steps htwo).le (by omega))) hno)
        fun _ heq => absurd heq hk
      rw [Made.iff_of_steps htwo, happend] at hmade
      exact absurd hmade (by decide)
    | flushes hsteps =>
      have hall := hsteps_concat hsteps
      rw [Nat.sub_add_cancel (by omega)] at hall
      have hmade := Made.of_steps hall
      exact h.of_mover hmoved (fun hno => absurd hmade hno)
        (fun _ => hafter ▸ by rw [FileTable.bytes, Dict.get?_set_self]; rfl)
        (fun _ hne => absurd hj hne) (fun _ => ⟨by simp, fun _ _ => hj ▸ hmade⟩)
        (fun hn hno => absurd (hunmade hn (hmade.le (by omega))) hno) fun _ heq => absurd heq hk
    | ended hended =>
      rcases hended with ⟨count, rfl⟩ | ⟨x, rfl⟩
      · exact absurd (hj ▸ halive.2 count rfl) hflushed
      · exact absurd rfl (halive.1 x)

/-- The invariant is kept up to step `n` of call `k`. -/
theorem Duel.concat (hrivals : self.Rivals place calls files k j call other file)
    (hcourse : Course sched k j other.op.flushStep n) (hpre : pre ++ [m] <+: sched)
    (hnot : ¬ Made (pre ++ [m]) k n)
    (h : Duel k j n other.op.flushStep file pre
      (self.scheduled ascii place pre (.fresh files calls))) :
    Duel k j n other.op.flushStep file (pre ++ [m])
      (self.scheduled ascii place (pre ++ [m]) (.fresh files calls)) := by
  rcases mover_cases self ascii place (.fresh files calls) pre m with
    ⟨hnone, hsame⟩ | ⟨c, stage, stage', hcall, hmoved, hstep⟩
  · -- there is no such call
    have hne : ∀ {i : Nat} {c : WriteCall}, calls[i]? = some c → m.call ≠ i := by
      rintro i c hi rfl
      obtain ⟨stage, hstage⟩ := exists_stage self ascii place files pre hi
      rw [hnone] at hstage
      cases hstage
    rw [hsame]
    exact ⟨by rw [made_concat_of_ne (hne hrivals.second)]; exact h.unflushed,
      by rw [made_concat_of_ne (hne hrivals.second)]; exact h.flushed, h.idle,
      fun i call stage hcall hi => ⟨(h.alive i call stage hcall hi).1, fun count hcount =>
        ((h.alive i call stage hcall hi).2 count hcount).mono (List.prefix_append pre [m])⟩,
      by rw [made_concat_of_ne (hne hrivals.first)]; exact h.unmade, h.found⟩
  · by_cases hk : m.call = k
    · exact h.first_moves hrivals hcourse hpre hnot hk hcall hmoved hstep
    · by_cases hj : m.call = j
      · exact h.second_moves hrivals hcourse hpre hj hcall hmoved hstep
      · exact h.idle_moves hrivals hk hj hcall hmoved hstep

/-- The invariant holds up to step `n` of call `k`. -/
theorem duel_scheduled (hrivals : self.Rivals place calls files k j call other file)
    (hcourse : Course sched k j other.op.flushStep n) (hnew : n = 2 → files.get? file = none)
    {pre : List WriteMove} (hpre : pre <+: sched) (hnot : ¬ Made pre k n) :
    Duel k j n other.op.flushStep file pre
      (self.scheduled ascii place pre (.fresh files calls)) := by
  induction pre using List.reverseRecOn with
  | nil =>
    refine ⟨fun _ => hrivals.empty file, fun hmade => ?_,
      fun _ _ _ hcall _ _ => .inl (start_of_fresh hcall), fun _ _ _ hcall _ => ?_,
      fun hn _ => hnew hn, fun _ _ _ _ _ hcall => ?_⟩
    · have hle := (Made.iff_of_steps (n := 0) (rfl : stepsOf [] j = [])).mp hmade
      have hbounds := hcourse.one_le
      omega
    · obtain rfl := start_of_fresh hcall
      exact ⟨by simp, by simp⟩
    · cases start_of_fresh hcall
  | append_singleton pre m ih =>
    have hbefore := List.prefix_append pre [m]
    exact (ih (hbefore.trans hpre) fun hmade => hnot (hmade.mono hbefore)).concat hrivals hcourse
      hpre hnot

/-- When it comes to its step `n`, call `k` lacks room. -/
theorem lacks_room (hrivals : self.Rivals place calls files k j call other file)
    (hcourse : Course sched k j other.op.flushStep n) (hnew : n = 2 → files.get? file = none) :
    ∃ pre m, pre ++ [m] <+: sched
      ∧ ¬ self.HasRoom ascii (self.scheduled ascii place pre (.fresh files calls)) m := by
  obtain ⟨-, hone, -⟩ := hcourse.one_le
  obtain ⟨pre, m, hpre, hk, hnot, hmade⟩ := hcourse.makes.exists_move hone
  have hbefore : pre <+: sched := (List.prefix_append pre [m]).trans hpre
  refine ⟨pre, m, hpre, fun hroom => ?_⟩
  have hduel := duel_scheduled hrivals hcourse hnew hbefore hnot
  have hflushed : Made pre j other.op.flushStep := by
    have hlater := hcourse.flushes.made hpre hmade
    rwa [made_concat_of_ne (hk ▸ hrivals.ne)] at hlater
  have hbytes := hduel.flushed hflushed
  obtain ⟨stage, hcall⟩ := exists_stage self ascii place files pre hrivals.first
  have hplaced := placed_scheduled hcall
  have hnoted := noted_scheduled hcall
  have halive := hduel.alive k call stage hcall (.inl rfl)
  have hleft := hroom call stage (hk ▸ hcall) (hcourse.makes.fault_eq_none hpre hk hnot)
  have hencode := encode_of_content [97] (by decide) hrivals.content
  have same : ∀ {opened : Ino}, self.target place call = some opened → opened = file :=
    fun h => Option.some.inj (h.symm.trans hrivals.target)
  have hlate := hcourse.made_before hbefore hflushed
  cases stage with
  | start =>
    have hle := (Made.iff_of_steps (n := 0) hplaced).mp hlate
    rcases hcourse.late with ⟨rfl, -⟩ | ⟨rfl, -⟩
    · exact absurd hle (by decide)
    · exact absurd hle (by decide)
  | raised x => exact absurd rfl (halive.1 x)
  | returned count =>
    have hall := halive.2 count rfl
    rw [hrivals.append] at hall
    exact absurd (hall.le hcourse.one_le.2.2) hnot
  | opened opened addition found =>
    -- so this is the second step, and the append has made the file
    have hle := (Made.iff_of_steps hplaced.1).mp hlate
    obtain rfl : n = 2 := by
      rcases hcourse.late with ⟨rfl, -⟩ | ⟨rfl, -⟩
      · exact absurd hle (by decide)
      · rfl
    obtain rfl := hduel.found rfl _ _ _ _ hcall
    have hfits := hleft hrivals.append
    rw [same hplaced.2.1, hbytes, hnoted.2.1, size_of_encode hencode, hrivals.limit] at hfits
    exact absurd hfits (by simp)
  | checked opened found =>
    have hfits : ((FileTable.bytes _ opened).length : Int)
      + (streamed ascii call found).length ≤ self.maxBytes := hleft
    rw [same hplaced.2.2.1, hbytes, streamed, ascii_stream hencode, hrivals.limit] at hfits
    exact absurd hfits (by simp)

end Duel

/-! ## Every order that is not kept -/

/-- The driver with another limit. -/
def withLimit (driver : FileSystemIntegration) (maxBytes : Int) (h : 0 < maxBytes) :
    FileSystemIntegration :=
  { driver with maxBytes := maxBytes, maxBytes_pos := h }

/-- The same operations on the same paths, where the same files exist. -/
structure Alike (calls calls' : List WriteCall) (files files' : FileTable) : Prop where
  calls_eq : calls'.map (fun c => (c.op, c.path)) = calls.map fun c => (c.op, c.path)
  files_eq : ∀ i, (files'.get? i).isNone = (files.get? i).isNone

section Alike

variable {self : FileSystemIntegration} {place : List String → Ino}
  {calls calls' : List WriteCall} {files files' : FileTable} {sched : List WriteMove} {file : Ino}

theorem target_congr {call call' : WriteCall} {maxBytes : Int} {h : 0 < maxBytes}
    (hsame : (call'.op, call'.path) = (call.op, call.path)) :
    (self.withLimit maxBytes h).target place call' = self.target place call := by
  obtain ⟨hop, hpath⟩ := Prod.mk.inj hsame
  rw [target, target, hop, hpath]
  rfl

theorem Alike.exists_call (h : Alike calls calls' files files') {k : Nat} {call' : WriteCall}
    (hcall : calls'[k]? = some call') :
    ∃ call, calls[k]? = some call ∧ (call'.op, call'.path) = (call.op, call.path) := by
  have hmap := congrArg (·[k]?) h.calls_eq
  simp only [List.getElem?_map, hcall, Option.map_some] at hmap
  obtain ⟨call, hcall, hsame⟩ := Option.map_eq_some_iff.mp hmap.symm
  exact ⟨call, hcall, hsame.symm⟩

/-- Whether an append is overtaken is a matter of the order and the paths. -/
theorem OvertakenIn.of_alike {maxBytes : Int} {hpos : 0 < maxBytes}
    (h : Alike calls calls' files files')
    (hovertaken : (self.withLimit maxBytes hpos).OvertakenIn place calls' files' sched file) :
    self.OvertakenIn place calls files sched file := by
  obtain ⟨k, j, call', other', hk, hj, hne, happend, htarget, hother, horder⟩ := hovertaken
  obtain ⟨call, hcall, hsame⟩ := h.exists_call hk
  obtain ⟨other, hother', hsame'⟩ := h.exists_call hj
  rw [target_congr hsame] at htarget
  rw [target_congr hsame'] at hother
  rw [h.files_eq file, (Prod.mk.inj hsame').1] at horder
  rw [(Prod.mk.inj hsame).1] at happend
  exact ⟨k, j, call, other, hcall, hother', hne, happend, htarget, hother, horder⟩

/-- One byte for each of the two calls, and too much for the others. -/
def rivalCalls (calls : List WriteCall) (k j : Nat) : List WriteCall :=
  calls.mapIdx fun i c =>
    { c with content := if i = k then "a" else if i = j then "b" else "xx" }

theorem rivalCalls_get {k j i : Nat} {c : WriteCall} (h : calls[i]? = some c) :
    (rivalCalls calls k j)[i]?
      = some { c with content := if i = k then "a" else if i = j then "b" else "xx" } := by
  rw [rivalCalls, List.getElem?_mapIdx, h, Option.map_some]

theorem rivalCalls_alike (calls : List WriteCall) (files : FileTable) (k j : Nat) :
    Alike calls (rivalCalls calls k j) files (files.mapVals fun _ _ => []) where
  calls_eq := by
    refine List.ext_getElem? fun i => ?_
    simp only [rivalCalls, List.getElem?_map, List.getElem?_mapIdx, Option.map_map]
    rfl
  files_eq i := by
    rw [Dict.get?_mapVals, Option.isNone_map]

theorem rivals (files : FileTable) {k j : Nat} {call other : WriteCall} (hk : calls[k]? = some call)
    (hj : calls[j]? = some other) (hne : k ≠ j) (happend : call.op = .appendText)
    (htarget : self.target place call = some file) (hother : self.target place other = some file) :
    (self.withLimit 1 (by decide)).Rivals place (rivalCalls calls k j)
      (files.mapVals fun _ _ => []) k j { call with content := "a" }
      { other with content := "b" } file where
  limit := rfl
  empty i := by
    rw [FileTable.bytes, Dict.get?_mapVals]
    cases files.get? i with
    | none => rfl
    | some content => rfl
  ne := hne
  first := by
    rw [rivalCalls_get hk, if_pos rfl]
  append := happend
  target := (target_congr rfl).trans htarget
  content := rfl
  second := by
    rw [rivalCalls_get hj, if_neg (Ne.symm hne), if_pos rfl]
  other_target := (target_congr rfl).trans hother
  other_content := rfl
  others := by
    intro i c hc hik hij
    obtain ⟨c', hc', -⟩ := (rivalCalls_alike calls files k j).exists_call hc
    rw [rivalCalls_get hc', if_neg hik, if_neg hij] at hc
    obtain rfl := Option.some.inj hc
    rfl

theorem course_of_overtaken {makes : Bool} {k j flush : Nat}
    (h : Overtaken sched makes k j flush) :
    ∃ n, Course sched k j flush n ∧ (n = 2 → makes = true) := by
  rcases h with ⟨hlate, hflushes, hmakes⟩ | ⟨hnew, hlate, hflushes, hmakes⟩
  · exact ⟨3, ⟨hmakes, hflushes, .inl ⟨rfl, hlate⟩⟩, by simp⟩
  · exact ⟨2, ⟨hmakes, hflushes, .inr ⟨rfl, hlate⟩⟩, fun _ => hnew⟩

end Alike

/-- **The order cannot be relaxed.** For any operations on any paths, any set of files
that exist, and any schedule: the limit is kept for every limit, every codec, all
contents of the files and all texts, exactly if no append is overtaken. -/
theorem order_iff (self : FileSystemIntegration) (place : List String → Ino)
    (calls : List WriteCall) (files : FileTable) (sched : List WriteMove) :
    (∀ (maxBytes : Int) (hpos : 0 < maxBytes) (codec : Codec) (calls' : List WriteCall)
        (files' : FileTable), Alike calls calls' files files' →
        (self.withLimit maxBytes hpos).Within files' → ∀ pre, pre <+: sched →
          (self.withLimit maxBytes hpos).KeepsLimit codec place (.fresh files' calls') pre)
      ↔ ∀ file, ¬ self.OvertakenIn place calls files sched file := by
  constructor
  · rintro hkeeps file ⟨k, j, call, other, hk, hj, hne, happend, htarget, hother, horder⟩
    have hrivals := rivals files hk hj hne happend htarget hother
    obtain ⟨n, hcourse, hmakes⟩ := course_of_overtaken horder
    have hnew : n = 2 → Dict.get? (files.mapVals fun _ _ => ([] : List UInt8)) file = none := by
      intro hn
      rw [Dict.get?_mapVals, Option.map_eq_none_iff]
      exact Option.isNone_iff_eq_none.mp (hmakes hn)
    obtain ⟨pre, m, hpre, hroom⟩ := lacks_room hrivals hcourse hnew
    have hwithin : (self.withLimit 1 (by decide)).Within (files.mapVals fun _ _ => []) := by
      intro i content hcontent
      rw [Dict.get?_mapVals] at hcontent
      obtain ⟨_, -, rfl⟩ := Option.map_eq_some_iff.mp hcontent
      exact (by decide : (0 : Int) ≤ 1)
    have hlimit := hkeeps 1 (by decide) ascii _ _ (rivalCalls_alike calls files k j) hwithin
      (pre ++ [m]) hpre
    exact hroom hlimit.hasRoom
  · intro hnone maxBytes hpos codec calls' files' halike hwithin pre hpre
    refine keepsLimit_of_hasRoom _ _ _ hwithin (fun pre m hpre call stage hcall hfault => ?_) hpre
    by_contra hroom
    obtain ⟨file, -, hovertaken⟩ := overtaken_of_not_roomLeft hpre hcall hfault hroom
    exact hnone file (hovertaken.of_alike halike)

end FileSystemIntegration

end TitoOS
